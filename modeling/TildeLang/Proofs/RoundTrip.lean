import Mathlib
import TildeLang.Proofs.PrintedTokens
import TildeLang.Proofs.WellFormed

/-!
# Printing and parsing

The text of a printable program is read back as that program.  The words of
the text are its tokens, and the grammar derives the program from its words:
an operand that is not between parentheses holds together at least as strongly
as its place asks.

* `Expr.derives`, `Stmt.derives` — trees are derived from their words;
* `parse_print` — the text of a printable program is read back.
-/

namespace TildeLang

open Grammar

/-! ### The words of a tree -/

/-- The leaves that can be read back. -/
def Leaf.Sound : Leaf → Prop
  | name text => IsName text.toList
  | literal l => l.Fits
  | op _ => True

namespace Spelling

theorem Sound.op (op : BinaryOp) : Sound op.spelling := by
  cases op with
  | divide => exact .divide
  | _ => exact .sign (by decide)

theorem sound_grouped {needed : Bool} {words : List Spelling} (h : ∀ w ∈ words, w.Sound) :
    ∀ w ∈ grouped needed words, w.Sound := by
  cases needed with
  | false => exact h
  | true =>
      rw [grouped, if_pos rfl, List.forall_mem_cons, List.forall_mem_append]
      exact ⟨.sign (by decide), h, by simpa using .sign (by decide)⟩

/-- Only a sign for division or a literal can be written with a slash. -/
theorem Sound.leaf_of_slash {w : Spelling} (h : w.Sound) (hslash : '/' ∈ w.text.toList) :
    ∃ leaf, w.leaf? = some leaf ∧ leaf.bearsSlash = true := by
  cases h with
  | sign h =>
      have hsigns : ∀ w ∈ signs, '/' ∉ w.text.toList := by decide
      exact absurd hslash (hsigns w h)
  | equals => exact absurd hslash (by decide)
  | divide => exact ⟨_, rfl, rfl⟩
  | @name text h =>
      have := h.letters '/' hslash
      simp [Alphabet.holds] at this
  | @literal l h =>
      refine ⟨.literal l, leaf?_literal rfl rfl, ?_⟩
      obtain ⟨n, rfl⟩ | ⟨s, rfl, _⟩ | ⟨s, rfl, _⟩ | ⟨b, rfl⟩ := h.cases
      · have hdigit : Char.isDigit '/' = true := by
          refine Nat.isDigit_of_mem_toDigits (n := n.toNat) (b := 10) (by decide) (by decide) ?_
          simpa [Literal.spelling, Literal.text, Literal.number, Value.describe] using hslash
        simp at hdigit
      · simpa [Literal.spelling, Literal.text, Literal.string, Value.describe, Leaf.bearsSlash,
          Literal.bearsSlash] using hslash
      · simpa [Literal.spelling, Literal.text, Literal.char, Value.describe, Leaf.bearsSlash,
          Literal.bearsSlash] using hslash
      · cases b <;> exact absurd hslash (by decide)

end Spelling

theorem Expr.words_sound {e : Expr} (h : ∀ leaf ∈ e.leaves, leaf.Sound) :
    ∀ w ∈ e.words, w.Sound := by
  induction e with
  | literal l => simpa [words] using .literal (h _ List.mem_cons_self)
  | identifier name => simpa [words] using .name (h _ List.mem_cons_self)
  | binary op left right ihl ihr =>
      rw [leaves, List.forall_mem_append, List.forall_mem_cons] at h
      rw [words, List.forall_mem_append, List.forall_mem_cons]
      exact ⟨Spelling.sound_grouped (ihl h.1), .op op, Spelling.sound_grouped (ihr h.2.2)⟩
  | assign target value ih =>
      rw [leaves, List.forall_mem_cons] at h
      rw [words, List.forall_mem_cons, List.forall_mem_cons]
      exact ⟨.name h.1, .equals, ih h.2⟩

theorem Declarator.words_sound {d : Declarator} (h : ∀ leaf ∈ d.leaves, leaf.Sound) :
    ∀ w ∈ d.words, w.Sound := by
  obtain ⟨name, init⟩ := d
  rw [leaves, List.forall_mem_cons] at h
  cases init with
  | none => simpa [words] using .name h.1
  | some e =>
      rw [words, List.forall_mem_cons, List.forall_mem_cons]
      exact ⟨.name h.1, .equals, Expr.words_sound h.2⟩

theorem Declarator.wordsAll_sound {declarators : List Declarator}
    (h : ∀ leaf ∈ declarators.flatMap leaves, leaf.Sound) :
    ∀ w ∈ wordsAll declarators, w.Sound := by
  have hparts : ∀ d ∈ declarators, ∀ w ∈ d.words, w.Sound := fun d hd =>
    words_sound fun leaf hleaf => h leaf (List.mem_flatMap.mpr ⟨d, hd, hleaf⟩)
  cases declarators with
  | nil => simp [wordsAll]
  | cons first more =>
      rw [List.forall_mem_cons] at hparts
      rw [wordsAll, List.forall_mem_append]
      refine ⟨hparts.1, fun w hw => ?_⟩
      obtain ⟨d, hd, hw⟩ := List.mem_flatMap.mp hw
      rcases List.mem_cons.mp hw with rfl | hw
      · exact .sign (by decide)
      · exact hparts.2 d hd w hw

theorem Stmt.wordsAll_sound {body : List Stmt} (h : ∀ s ∈ body, ∀ w ∈ s.words, w.Sound) :
    ∀ w ∈ wordsAll body, w.Sound := by
  induction body with
  | nil => simp [wordsAll]
  | cons s rest ih =>
      rw [List.forall_mem_cons] at h
      rw [wordsAll, List.forall_mem_append]
      exact ⟨h.1, ih h.2⟩

theorem Stmt.words_sound {s : Stmt} (h : ∀ leaf ∈ s.leaves, leaf.Sound) :
    ∀ w ∈ s.words, w.Sound := by
  induction s with
  | ifThen test consequent ih =>
      rw [leaves, List.forall_mem_append] at h
      simp only [words, List.forall_mem_cons, List.forall_mem_append]
      exact ⟨.sign (by decide), .sign (by decide), Expr.words_sound h.1, .sign (by decide),
        ih h.2⟩
  | ifThenElse test consequent alternate ihc iha =>
      rw [leaves, List.forall_mem_append, List.forall_mem_append] at h
      simp only [words, List.forall_mem_cons, List.forall_mem_append]
      exact ⟨.sign (by decide), .sign (by decide), Expr.words_sound h.1, .sign (by decide),
        ihc h.2.1, .sign (by decide), iha h.2.2⟩
  | block body ih =>
      rw [leaves, leavesAll_eq] at h
      simp only [words, List.forall_mem_cons, List.forall_mem_append]
      refine ⟨.sign (by decide), wordsAll_sound fun s hs => ih s hs ?_, .sign (by decide), by simp⟩
      exact fun leaf hleaf => h leaf (List.mem_flatMap.mpr ⟨s, hs, hleaf⟩)
  | declare binding declarators =>
      rw [words, List.forall_mem_cons]
      refine ⟨?_, Declarator.wordsAll_sound h⟩
      cases binding <;> exact .sign (by decide)
  | expression e => exact Expr.words_sound h

/-! ### Deriving a tree from its words -/

/-- The expressions that hold together with at least some strength. -/
def Grammar.AtStrength (group : Phrases Expr) : (strength : Nat) → Phrases Expr
  | 0 => AssignmentOver group
  | 1 => Sum group
  | 2 => Product group
  | _ => Primary group

theorem Grammar.AtStrength.weaken {group : Phrases Expr} {ts : List Token} {e : Expr}
    {weak strong : Nat} (hle : weak ≤ strong) (h : AtStrength group strong ts e) :
    AtStrength group weak ts e := by
  induction hle with
  | refl => exact h
  | @step strong _ ih =>
      refine ih ?_
      match strong, h with
      | 0, h => exact .sum h
      | 1, h => exact .single h
      | 2, h => exact .single h
      | _ + 3, h => exact h

private theorem exists_pred {k n : Nat} (h : k + 1 ≤ n) : ∃ m, n = m + 1 ∧ k ≤ m :=
  ⟨n - 1, by omega, by omega⟩

/-- The tokens of an operand, with its parentheses where it needs them. -/
theorem grouped_derives {e : Expr} {needed : Bool} {ts : List Token} {n strength : Nat}
    (hderives : ∀ ts n, ts.map Token.spelling = e.words → e.depth ≤ n →
      AtStrength (Assignment n) e.strength ts e)
    (hwords : ts.map Token.spelling = Spelling.grouped needed e.words)
    (hdepth : (if needed then e.depth + 1 else e.depth) ≤ n)
    (hstrength : needed = false → strength ≤ e.strength) (hprimary : strength ≤ 3) :
    AtStrength (Assignment n) strength ts e := by
  cases needed with
  | false => exact .weaken (hstrength rfl) (hderives ts n hwords hdepth)
  | true =>
      rw [Spelling.grouped, if_pos rfl] at hwords
      obtain ⟨left, ts, rfl, hleft, hwords⟩ := List.map_eq_cons_iff.mp hwords
      obtain ⟨us, vs, rfl, hus, hvs⟩ := List.map_eq_append_iff.mp hwords
      obtain ⟨right, _, rfl, hright, hnil⟩ := List.map_eq_cons_iff.mp hvs
      obtain rfl := List.map_eq_nil_iff.mp hnil
      obtain ⟨n, rfl, hbelow⟩ := exists_pred hdepth
      have hinner : Assignment (n + 1) us e :=
        AtStrength.weaken (Nat.zero_le _) (hderives us n hus hbelow)
      have hgroup : AtStrength (Assignment (n + 1)) 3 (left :: (us ++ [right])) e :=
        .parenthesized (.mk (congrArg Spelling.kind hleft) hinner (congrArg Spelling.kind hright))
      exact hgroup.weaken hprimary

/-- **Expressions.**  An expression is derived from its words, at the strength
with which it holds together. -/
theorem Expr.derives (e : Expr) (ts : List Token) (n : Nat)
    (hwords : ts.map Token.spelling = e.words) (hdepth : e.depth ≤ n) :
    AtStrength (Assignment n) e.strength ts e := by
  induction e generalizing ts n with
  | literal l =>
      obtain ⟨t, _, rfl, ht, hnil⟩ := List.map_eq_cons_iff.mp hwords
      obtain rfl := List.map_eq_nil_iff.mp hnil
      exact .literal (congrArg Spelling.kind ht).symm (congrArg Spelling.value ht).symm
  | identifier name =>
      obtain ⟨t, _, rfl, ht, hnil⟩ := List.map_eq_cons_iff.mp hwords
      obtain rfl := List.map_eq_nil_iff.mp hnil
      obtain rfl : t.raw = name := congrArg Spelling.text ht
      exact .identifier (congrArg Spelling.kind ht)
  | binary op left right ihl ihr =>
      obtain ⟨us, vs, rfl, hus, hvs⟩ := List.map_eq_append_iff.mp hwords
      obtain ⟨sign, vs, rfl, hsign, hvs⟩ := List.map_eq_cons_iff.mp hvs
      have hsign : sign.kind = op.kind := congrArg Spelling.kind hsign
      have hdepth := Nat.max_le.mp hdepth
      have hleft : AtStrength (Assignment n) op.strength us left :=
        grouped_derives ihl hus (by simpa using hdepth.1)
          (fun h => Nat.not_lt.mp (of_decide_eq_false h)) (by cases op <;> decide)
      have hright : AtStrength (Assignment n) (op.strength + 1) vs right :=
        grouped_derives ihr hvs (by simpa using hdepth.2)
          (fun h => Nat.not_le.mp (of_decide_eq_false h)) (by cases op <;> decide)
      cases op with
      | add => exact Grouped.apply hleft (by decide) hsign hright
      | sub => exact Grouped.apply hleft (by decide) hsign hright
      | multiply => exact Grouped.apply hleft (by decide) hsign hright
      | divide => exact Grouped.apply hleft (by decide) hsign hright
  | assign target value ih =>
      obtain ⟨name, ts, rfl, hname, hrest⟩ := List.map_eq_cons_iff.mp hwords
      obtain ⟨equals, ts, rfl, hequals, hrest⟩ := List.map_eq_cons_iff.mp hrest
      obtain rfl : name.raw = target := congrArg Spelling.text hname
      obtain ⟨n, rfl, hbelow⟩ := exists_pred hdepth
      have hvalue : Assignment (n + 1) ts value :=
        AtStrength.weaken (Nat.zero_le _) (ih ts n hrest hbelow)
      exact .assign (congrArg Spelling.kind hname) (congrArg Spelling.kind hequals) hvalue

theorem Expr.derives_assignment {e : Expr} {ts : List Token} {n : Nat}
    (hwords : ts.map Token.spelling = e.words) (hlevels : e.levels ≤ n) :
    Assignment n ts e := by
  obtain ⟨n, rfl, hdepth⟩ := exists_pred hlevels
  exact AtStrength.weaken (Nat.zero_le _) (e.derives ts n hwords hdepth)

theorem Declarator.derives {d : Declarator} {ts : List Token} {n : Nat}
    (hwords : ts.map Token.spelling = d.words) (hlevels : d.levels ≤ n) :
    Declared (Assignment n) ts d := by
  obtain ⟨name, init⟩ := d
  cases init with
  | none =>
      obtain ⟨t, _, rfl, ht, hnil⟩ := List.map_eq_cons_iff.mp hwords
      obtain rfl := List.map_eq_nil_iff.mp hnil
      obtain rfl : t.raw = name := congrArg Spelling.text ht
      exact .bare (congrArg Spelling.kind ht)
  | some e =>
      obtain ⟨t, ts, rfl, ht, hrest⟩ := List.map_eq_cons_iff.mp hwords
      obtain ⟨equals, ts, rfl, hequals, hrest⟩ := List.map_eq_cons_iff.mp hrest
      obtain rfl : t.raw = name := congrArg Spelling.text ht
      exact .initialized (congrArg Spelling.kind ht) (congrArg Spelling.kind hequals)
        (Expr.derives_assignment hrest hlevels)

theorem Declarator.derives_more {more : List Declarator} {ts : List Token} {n : Nat}
    (hwords : ts.map Token.spelling = more.flatMap fun d => .comma :: d.words)
    (hlevels : ∀ d ∈ more, d.levels ≤ n) :
    Sequence (AfterComma (Declared (Assignment n))) ts more := by
  induction more generalizing ts with
  | nil =>
      obtain rfl := List.map_eq_nil_iff.mp hwords
      exact .nil
  | cons d more ih =>
      rw [List.forall_mem_cons] at hlevels
      obtain ⟨us, vs, rfl, hus, hvs⟩ := List.map_eq_append_iff.mp hwords
      obtain ⟨comma, us, rfl, hcomma, hus⟩ := List.map_eq_cons_iff.mp hus
      exact .cons (.mk (congrArg Spelling.kind hcomma) (derives hus hlevels.1))
        (ih hvs hlevels.2)

theorem Stmt.derives_all {body : List Stmt} {ts : List Token} {n : Nat}
    (hderives : ∀ s ∈ body, ∀ ts, ts.map Token.spelling = s.words → s.levels ≤ n →
      (∀ s' ∈ s.statements, s'.WellMade) → Statement n ts s)
    (hwords : ts.map Token.spelling = wordsAll body) (hlevels : levelsAll body ≤ n)
    (hmade : ∀ s ∈ statementsAll body, s.WellMade) :
    Sequence (Statement n) ts body := by
  induction body generalizing ts with
  | nil =>
      obtain rfl := List.map_eq_nil_iff.mp hwords
      exact .nil
  | cons s rest ih =>
      rw [List.forall_mem_cons] at hderives
      rw [statementsAll, List.forall_mem_append] at hmade
      obtain ⟨us, vs, rfl, hus, hvs⟩ := List.map_eq_append_iff.mp hwords
      have hlevels := Nat.max_le.mp hlevels
      exact .cons (hderives.1 us hus hlevels.1 hmade.1)
        (ih hderives.2 hvs hlevels.2 hmade.2)

/-- The tokens of a test, with its parentheses. -/
theorem Expr.derives_parenthesized {e : Expr} {words : List Spelling} {ts : List Token} {n : Nat}
    (hwords : ts.map Token.spelling = .leftParen :: (e.words ++ .rightParen :: words))
    (hlevels : e.levels ≤ n) :
    ∃ us vs, ts = us ++ vs ∧ Parenthesized (Assignment n) us e ∧
      vs.map Token.spelling = words := by
  obtain ⟨left, ts, rfl, hleft, hrest⟩ := List.map_eq_cons_iff.mp hwords
  obtain ⟨us, vs, rfl, hus, hrest⟩ := List.map_eq_append_iff.mp hrest
  obtain ⟨right, vs, rfl, hright, hvs⟩ := List.map_eq_cons_iff.mp hrest
  refine ⟨left :: (us ++ [right]), vs, by simp, ?_, hvs⟩
  exact .mk (congrArg Spelling.kind hleft) (derives_assignment hus hlevels)
    (congrArg Spelling.kind hright)

/-- **Statements.**  A statement is derived from its words. -/
theorem Stmt.derives (s : Stmt) (ts : List Token) (n : Nat)
    (hwords : ts.map Token.spelling = s.words) (hlevels : s.levels ≤ n)
    (hmade : ∀ s' ∈ s.statements, s'.WellMade) : Statement n ts s := by
  induction s generalizing ts n with
  | ifThen test consequent ih =>
      obtain ⟨n, rfl, hbelow⟩ := exists_pred hlevels
      have hbelow := Nat.max_le.mp hbelow
      rw [statements, List.forall_mem_cons] at hmade
      obtain ⟨word, ts, rfl, hword, hrest⟩ := List.map_eq_cons_iff.mp hwords
      obtain ⟨us, vs, rfl, htest, hvs⟩ := Expr.derives_parenthesized hrest hbelow.1
      exact .ifThen (congrArg Spelling.kind hword) htest (ih vs n hvs hbelow.2 hmade.2)
  | ifThenElse test consequent alternate ihc iha =>
      obtain ⟨n, rfl, hbelow⟩ := exists_pred hlevels
      have hbelow := And.imp_right Nat.max_le.mp (Nat.max_le.mp hbelow)
      rw [statements, List.forall_mem_cons, List.forall_mem_append] at hmade
      obtain ⟨word, ts, rfl, hword, hrest⟩ := List.map_eq_cons_iff.mp hwords
      obtain ⟨us, _, rfl, htest, hrest⟩ := Expr.derives_parenthesized hrest hbelow.1
      obtain ⟨vs, ws, rfl, hvs, hws⟩ := List.map_eq_append_iff.mp hrest
      obtain ⟨other, ws, rfl, hother, hws⟩ := List.map_eq_cons_iff.mp hws
      exact .ifThenElse (congrArg Spelling.kind hword) htest
        (ihc vs n hvs hbelow.2.1 hmade.2.1) hmade.1 (congrArg Spelling.kind hother)
        (iha ws n hws hbelow.2.2 hmade.2.2)
  | block body ih =>
      obtain ⟨n, rfl, hbelow⟩ := exists_pred hlevels
      rw [statements, List.forall_mem_cons] at hmade
      obtain ⟨left, ts, rfl, hleft, hrest⟩ := List.map_eq_cons_iff.mp hwords
      obtain ⟨us, vs, rfl, hus, hvs⟩ := List.map_eq_append_iff.mp hrest
      obtain ⟨right, _, rfl, hright, hnil⟩ := List.map_eq_cons_iff.mp hvs
      obtain rfl := List.map_eq_nil_iff.mp hnil
      exact .block (congrArg Spelling.kind hleft)
        (derives_all (fun s hs ts => ih s hs ts n) hus hbelow hmade.2)
        (congrArg Spelling.kind hright)
  | declare binding declarators =>
      obtain ⟨n, rfl, hbelow⟩ := exists_pred hlevels
      have hbelow := Declarator.foldr_levels_le_iff.mp hbelow
      have hne : declarators ≠ [] := hmade _ List.mem_cons_self
      obtain ⟨first, more, rfl⟩ := List.exists_cons_of_ne_nil hne
      rw [List.forall_mem_cons] at hbelow
      obtain ⟨word, ts, rfl, hword, hrest⟩ := List.map_eq_cons_iff.mp hwords
      obtain ⟨us, vs, rfl, hus, hvs⟩ := List.map_eq_append_iff.mp hrest
      have hword : word.kind = binding.kind := by
        have := congrArg Spelling.kind hword
        cases binding <;> exact this
      exact .declare hword (Declarator.derives hus hbelow.1)
        (Declarator.derives_more hvs hbelow.2)
  | expression e =>
      obtain ⟨n, rfl, hbelow⟩ := exists_pred hlevels
      have hname : e.words.head?.map Spelling.kind = some .identifier :=
        e.head_words_iff.mpr (hmade _ List.mem_cons_self)
      have hwords : ts.map Token.spelling = e.words := hwords
      have he := Expr.derives_assignment hwords hbelow
      cases ts with
      | nil =>
          rw [← hwords] at hname
          cases hname
      | cons name ts =>
          rw [← hwords] at hname
          exact .expression (Option.some.inj hname) he

/-- **Programs.**  A program is derived from its words. -/
theorem Program.derives {program : Program} {ts : List Token} {n : Nat}
    (hwords : ts.map Token.spelling = program.words) (hlevels : program.levels ≤ n)
    (hmade : ∀ s ∈ program.statements, s.WellMade) : Grammar.Program n ts program :=
  Stmt.derives_all (fun s _ ts => s.derives ts n) hwords hlevels hmade

/-! ### Reading a printed program back -/

theorem Program.Printable.wellMade {program : Program} (h : program.Printable) :
    ∀ s ∈ program.statements, s.WellMade := by
  intro s hs
  cases s with
  | ifThen test consequent => exact trivial
  | ifThenElse test consequent alternate => exact h.closed _ _ _ hs
  | block body => exact trivial
  | declare binding declarators => exact h.declares _ _ hs
  | expression e => exact e.head_words_iff.mp (h.begins e hs)

theorem Program.Printable.sound {program : Program} (h : program.Printable) :
    ∀ w ∈ program.words, w.Sound := by
  refine Stmt.wordsAll_sound fun s hs => Stmt.words_sound fun leaf hleaf => ?_
  have hmem : leaf ∈ program.leaves := by
    rw [leaves, Stmt.leavesAll_eq]
    exact List.mem_flatMap.mpr ⟨s, hs, hleaf⟩
  cases leaf with
  | name text => exact h.names text hmem
  | literal l => exact h.literals l hmem
  | op sign => exact trivial

/-- After a sign for division, no word of the text has a slash. -/
theorem Program.Printable.words_slashes {program : Program} (h : program.Printable) :
    program.words.Pairwise fun w w' => w.kind = .divide → '/' ∉ w'.text.toList := by
  have hslashes := h.slashes
  rw [leaves_eq, List.pairwise_filterMap] at hslashes
  refine hslashes.imp_of_mem ?_
  intro w w' _ hw' hleaves hkind hslash
  obtain ⟨leaf, hleaf, hbears⟩ := (h.sound w' hw').leaf_of_slash hslash
  have hdivide : w.leaf? = some (.op .divide) := Spelling.leaf?_op hkind
  have hfree := hleaves _ hdivide leaf hleaf rfl
  simp [hbears] at hfree

/-- The tokens of the text of a printable program are its words. -/
theorem Program.Printable.tokenize {program : Program} (h : program.Printable) :
    ∃ ts, TildeLang.tokenize program.print = .ok ts ∧
      ts.map Token.spelling = program.words := by
  have hspells := spells_spaced h.sound h.words_slashes
  apply Spells.tokenize
  rwa [print, String.toList_ofList]

/-- Every tree that the parser answers with can be printed. -/
theorem Program.Printable.of_parse {source : String} {program : Program}
    (h : parse source = .ok program) : program.Printable := by
  obtain ⟨ts, htokens, hprogram⟩ := parse_eq_ok_iff.mp h
  have hformed := wellFormed_of_derivation htokens hprogram
  refine ⟨hformed.toRegular, ?_, hprogram.levels_le⟩
  exact fun e he => e.head_words_iff.mpr (hformed.begins e he)

/-- **Parsing undoes printing.**  The text of a printable program is read back
as that program, and every tree that the parser answers with is printable. -/
theorem parse_print :
    (∀ program : Program, program.Printable → parse program.print = .ok program) ∧
    (∀ (source : String) (program : Program), parse source = .ok program →
      program.Printable) := by
  refine ⟨?_, fun _ _ => Program.Printable.of_parse⟩
  intro program h
  obtain ⟨ts, htokens, hwords⟩ := h.tokenize
  exact parse_eq_ok_iff.mpr ⟨ts, htokens, Program.derives hwords h.levels h.wellMade⟩

/-- A program that needs some of the parentheses that it was written with. -/
theorem parse_print_parentheses : ∃ program : Program, program.Printable ∧
    program.print = "if ( aa ) aa = ( bb - ( cc - 1 ) ) * 2 else let dd" ∧
    parse "if ( aa ) aa = ( bb - ( cc - 1 ) ) * 2 else let dd" = .ok program := by
  have h : parse "if((aa))aa=((bb)-(cc-1))*2 else let dd"
      = .ok ⟨[.ifThenElse (.identifier "aa")
          (.expression (.assign "aa" (.binary .multiply
            (.binary .sub (.identifier "bb")
              (.binary .sub (.identifier "cc") (.literal (.number 1))))
            (.literal (.number 2)))))
          (.declare .letBinding [⟨"dd", none⟩])]⟩ := by cbv
  have hprintable := parse_print.2 _ _ h
  have hprint := parse_print.1 _ hprintable
  have htext : Program.print ⟨[.ifThenElse (.identifier "aa")
          (.expression (.assign "aa" (.binary .multiply
            (.binary .sub (.identifier "bb")
              (.binary .sub (.identifier "cc") (.literal (.number 1))))
            (.literal (.number 2)))))
          (.declare .letBinding [⟨"dd", none⟩])]⟩
      = "if ( aa ) aa = ( bb - ( cc - 1 ) ) * 2 else let dd" := by cbv
  exact ⟨_, hprintable, htext, htext ▸ hprint⟩

end TildeLang
