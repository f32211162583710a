import TildeLang.Proofs.NestingLimit
import TildeLang.Proofs.Splicing

/-!
# Single expressions and programs

An expression can be read by itself, or as a part of a program: as the only
statement, if it begins with an identifier, or as what a declared name starts
from.  All three come to the same expression.  The statement around it takes
one level, so the program is refused where the expression alone opens as many
levels as there may be.

* `OpensAtMost` — how many levels of a rule are open at once in a history;
* `parseExpression_shallow_iff` — an expression that leaves room for a level;
* `spells_declaration_iff` — the words of a declaration;
* `entry_points_agree` — the three ways to read an expression.
-/

namespace TildeLang

open Grammar

/-! ### Levels of expressions -/

/-- The number of levels of a rule that a history leaves open. -/
def openLevelsOf (rule : Rule) (history : List Moment) : Nat :=
  history.countP (·.event = .opened rule) - history.countP (·.event = .closed rule)

/-- At no moment of the history are more levels of the rule open. -/
def OpensAtMost (rule : Rule) (n : Nat) (history : List Moment) : Prop :=
  ∀ moments, moments <:+ history → openLevelsOf rule moments ≤ n

/-- All levels that are opened or closed in the history are of one rule. -/
def Solely (rule : Rule) (history : List Moment) : Prop :=
  ∀ m ∈ history, m.event.keepsLevels = false →
    m.event = .opened rule ∨ m.event = .closed rule

section Solely

variable {rule : Rule} {history moments : List Moment} {p q : Parser}

theorem Solely.of_suffix (h : Solely rule history) (hmoments : moments <:+ history) :
    Solely rule moments :=
  fun m hm => h m (hmoments.mem hm)

/-- Where all levels are of one rule, those of the rule are all levels. -/
theorem Solely.openLevelsOf_eq (h : Solely rule history) :
    openLevelsOf rule history = openLevels history := by
  have hopened : history.countP (·.event = .opened rule) = openings history := by
    refine List.countP_congr fun m hm => ?_
    have hevent := h m hm
    cases hm : m.event <;> simp_all [Event.opens, Event.closes, Event.keepsLevels]
  have hclosed : history.countP (·.event = .closed rule) = closings history := by
    refine List.countP_congr fun m hm => ?_
    have hevent := h m hm
    cases hm : m.event <;> simp_all [Event.opens, Event.closes, Event.keepsLevels]
  rw [openLevelsOf, openLevels, hopened, hclosed]

theorem Parser.Stays.solely (h : p.Stays q) (hp : Solely rule p.history) :
    Solely rule q.history := by
  obtain ⟨_, new, hhistory, hnew⟩ := h
  rw [hhistory]
  intro m hm hevent
  rcases List.mem_append.mp hm with hm | hm
  · rw [(hnew m hm).2] at hevent
    cases hevent
  · exact hp m hm hevent

end Solely

namespace Parse

variable {α : Type} {rule : Rule} {p : Parser}

/-- Opening levels of one rule only is a comparison. -/
def opening (rule : Rule) : Comparison where
  Holds p _ rule' := Solely rule p.history → Solely rule (rule' p).2.history
  congr h _ hrule' := hrule' ▸ h
  pure _ _ h := h
  note _ := (note_stays rfl).solely
  eat _ _ _ := eat_stays.solely
  fail _ _ _ _ := fail_stays.solely
  bind {α β p rule₁ rule₁' next next'} hrule hnext h := by
    rcases hrun : rule₁' p with ⟨answer, q⟩
    have hq := hrule h
    rw [hrun] at hq
    cases answer with
    | ok a => exact bind_of_ok hrun ▸ hnext a q hrun hq
    | error e => exact bind_of_error hrun ▸ hq

theorem opening_within {body body' : Parse α}
    (h : (opening rule).Holds (p.entering rule) body body') :
    (opening rule).Holds p (within rule body) (within rule body') := by
  intro hp
  have hentering : Solely rule (p.entering rule).history :=
    List.forall_mem_cons.mpr ⟨fun _ => Or.inl rfl, hp⟩
  exact List.forall_mem_cons.mpr ⟨fun _ => Or.inr rfl, h hentering⟩

/-- The levels of an expression are levels of expressions. -/
theorem assignment_opening (n : Nat) (p : Parser) :
    (opening .assignmentExpression).Holds p (assignment n) (assignment n) := by
  induction n generalizing p with
  | zero => exact fail_stays.solely
  | succ n ih =>
      rw [assignment_succ]
      exact opening_within ((opening .assignmentExpression).assignmentLevel fun q _ => ih q)

end Parse

section Shallow

open Parse

variable {α : Type} {limit n : Nat} {source : String} {e : Expr}

/-- A limit lets an answer through where no more levels are open than may be. -/
theorem CutAt.eq_ok_iff {answer : Except Error α} {run : Except Error α × Parser} {a : α}
    (h : CutAt limit answer run) :
    answer = .ok a ↔ run.1 = .ok a ∧ ∀ m ∈ run.2.history, m.cursor.depth ≤ limit := by
  constructor
  · intro hok
    have hle : ∀ m ∈ run.2.history, m.cursor.depth ≤ limit := by
      intro m hm
      apply Nat.le_of_not_lt
      intro hdeep
      obtain ⟨_, _, hcuts⟩ := h.cut ⟨m, hm, hdeep⟩
      obtain ⟨_, _, _, hanswer⟩ := hcuts.exists_rule
      cases hok.symm.trans hanswer
    exact ⟨(h.same hle).symm.trans hok, hle⟩
  · rintro ⟨hok, hle⟩
    exact (h.same hle).trans hok

/-- Reading an expression opens levels of expressions only. -/
theorem parseExpressionWithin_solely (n : Nat) (source : String) (p : Parser) :
    Solely .assignmentExpression (Parser.parseExpressionWithin n source p).2.history := by
  have hfetch : (opening .assignmentExpression).Holds (Parser.ofText source)
      (fetch []) (fetch []) := (fetch_stays (by simp)).solely
  have hrun : (opening .assignmentExpression).Holds (Parser.ofText source)
      (fetch [] >>= fun _ => (Rules.limited n).soleExpression)
      (fetch [] >>= fun _ => (Rules.limited n).soleExpression) :=
    (opening .assignmentExpression).bind hfetch fun _ q _ =>
      (opening .assignmentExpression).soleExpression _ (assignment_opening n q)
  refine hrun ?_
  intro m hm
  cases hm

/-- The depth at the moments of a run that opens levels of one rule only. -/
theorem depth_le_iff_opensAtMost {rule : Rule} {history : List Moment}
    (hsolely : Solely rule history)
    (hcounted : ∀ m older, m :: older <:+ history → m.cursor.depth = openLevels (m :: older)) :
    (∀ m ∈ history, m.cursor.depth ≤ n) ↔ OpensAtMost rule n history := by
  constructor
  · intro hle moments hmoments
    rw [(hsolely.of_suffix hmoments).openLevelsOf_eq]
    cases moments with
    | nil => exact Nat.zero_le n
    | cons m older =>
        rw [← hcounted m older hmoments]
        exact hle m (hmoments.mem List.mem_cons_self)
  · intro hopens m hm
    obtain ⟨newer, older, rfl⟩ := List.append_of_mem hm
    have hsuffix : m :: older <:+ newer ++ m :: older := List.suffix_append _ _
    rw [hcounted m older hsuffix, ← (hsolely.of_suffix hsuffix).openLevelsOf_eq]
    exact hopens _ hsuffix

/-- **Shallow expressions.**  An expression is read with at most so many of its
levels open at once, whatever the limit, exactly if it is derived with as many
levels. -/
theorem parseExpression_shallow_iff (n k : Nat) (source : String) (e : Expr) (p : Parser) :
    ((Parser.parseExpressionWithin (n + k) source p).1 = .ok e ∧
      OpensAtMost .assignmentExpression n
        (Parser.parseExpressionWithin (n + k) source p).2.history) ↔
      ∃ ts, tokenize source = .ok ts ∧ Assignment n ts e := by
  have hcut : CutAt n (Parser.parseExpressionWithin n source p).1
      (Parser.parseExpressionWithin (n + k) source p) :=
    cutAt_of_cutting (by simp) (fun q => (cutting n n).soleExpression (.limited n)
      (assignment_cut n n k q)) p p
  rw [← depth_le_iff_opensAtMost (parseExpressionWithin_solely _ _ _) hcut.counted,
    ← hcut.eq_ok_iff]
  exact restart_eq_ok_iff (soleExpression_reads n) (soleExpression_exhausts n)
    (soleExpression_follows n)

end Shallow

/-! ### Statements around an expression -/

namespace Grammar

variable {n : Nat} {ts : List Token} {e : Expr}

theorem Sequence.singleton_iff {α : Type} {item : Phrases α} {a : α} :
    Sequence item ts [a] ↔ item ts a := by
  constructor
  · intro h
    cases h with
    | cons head tail =>
        cases tail
        simpa using head
  · intro h
    simpa using Sequence.cons h .nil

/-- An expression that begins with an identifier is a statement. -/
theorem Statement.expression_iff :
    Statement (n + 1) ts (.expression e) ↔
      Assignment n ts e ∧ ∃ name us, ts = name :: us ∧ name.kind = .identifier := by
  constructor
  · intro h
    cases h with
    | expression hname he => exact ⟨he, _, _, rfl, hname⟩
  · rintro ⟨he, name, us, rfl, hname⟩
    exact .expression hname he

/-- A declaration of one name. -/
theorem Statement.declare_iff {binding : Binding} {x : String} :
    Statement (n + 1) ts (.declare binding [⟨x, some e⟩]) ↔
      ∃ word name equals us, ts = word :: name :: equals :: us ∧ word.kind = binding.kind ∧
        name.kind = .identifier ∧ name.raw = x ∧ equals.kind = .assign ∧ Assignment n us e := by
  constructor
  · intro h
    cases h with
    | declare hword hfirst hmore =>
        cases hmore
        cases hfirst with
        | initialized hname hequals init =>
            exact ⟨_, _, _, _, by simp, hword, hname, rfl, hequals, init⟩
  · rintro ⟨word, name, equals, us, rfl, hword, hname, rfl, hequals, he⟩
    have hdeclared : StatementOver (Assignment n) (Statement n) _ _ :=
      .declare hword (.initialized hname hequals he) .nil
    rwa [List.append_nil] at hdeclared

end Grammar

/-! ### The words of a declaration -/

section Words

variable {words : List Spelling} {text : List Char} {source : String} {ts : List Token}

/-- A word at the front of a text is the first of its words. -/
theorem Spelling.Scans.spells_iff {w : Spelling} {rest : List Char} (h : w.Scans rest) :
    Spells (w.text.toList ++ rest) words ↔ ∃ later, words = w :: later ∧ Spells rest later := by
  constructor
  · intro hspells
    obtain ⟨row, hmatch, hkind, hvisible, hvalue⟩ := h
    generalize hwhole : w.text.toList ++ rest = whole at hspells hmatch
    cases hspells with
    | nil => cases hmatch
    | trivia hmatch' htrivia later =>
        cases hmatch.symm.trans hmatch'
        cases htrivia.symm.trans hvisible
    | word hmatch' _ hvalue' later =>
        cases hmatch.symm.trans hmatch'
        cases hvalue.symm.trans hvalue'
        refine ⟨_, ?_, later⟩
        rw [hkind, String.ofList_toList]
  · rintro ⟨later, rfl, hlater⟩
    exact h.spells hlater

theorem isName_aa : IsName "aa".toList where
  length := by decide
  letters := by simp [Alphabet.holds]
  fresh := by decide
  free := by decide

/-- The words `let aa =` come before the words of the text. -/
theorem spells_declaration_iff :
    Spells ("let aa = ".toList ++ text) words ↔
      ∃ later, words = Binding.letBinding.spelling :: .name "aa" :: .equals :: later ∧
        Spells text later := by
  have hseparated : ∀ rest, Separated (' ' :: rest) := by simp [Separated]
  have hspace : ∀ rest words, Spells (' ' :: rest) words ↔ Spells rest words :=
    fun rest _ => spells_space_iff (by decide) rest
  have hequals := Spelling.scans_equals (hseparated text)
  have hname := Spelling.scans_name isName_aa
    (hseparated (Spelling.equals.text.toList ++ ' ' :: text))
  have hlet := Spelling.scans_of_mem_signs (w := Binding.letBinding.spelling) (by decide)
    (hseparated ((Spelling.name "aa").text.toList ++
      ' ' :: (Spelling.equals.text.toList ++ ' ' :: text)))
  constructor
  · intro h
    obtain ⟨_, rfl, h₁⟩ := hlet.spells_iff.mp h
    obtain ⟨_, rfl, h₂⟩ := hname.spells_iff.mp ((hspace _ _).mp h₁)
    obtain ⟨later, rfl, h₃⟩ := hequals.spells_iff.mp ((hspace _ _).mp h₂)
    exact ⟨later, rfl, (hspace _ _).mp h₃⟩
  · rintro ⟨later, rfl, h⟩
    have hlater := hequals.spells ((hspace _ _).mpr h)
    exact hlet.spells ((hspace _ _).mpr (hname.spells ((hspace _ _).mpr hlater)))

/-- A source spells its tokens. -/
theorem spells_of_tokenize (h : tokenize source = .ok ts) :
    Spells source.toList (ts.map Token.spelling) := by
  rw [tokenize_eq_lexemes] at h
  cases hall : lexemes source with
  | error e =>
      rw [hall] at h
      cases h
  | ok ls =>
      rw [hall] at h
      cases h
      obtain ⟨final, hpasses, hend⟩ := passes_of_lexemes hall
      exact hpasses.spells hend

end Words

/-! ### Sources -/

section Sources

variable {source : String} {e : Expr}

/-- A source that is one statement, an expression. -/
theorem parse_expression_iff :
    parse source = .ok ⟨[.expression e]⟩ ↔
      ∃ ts, tokenize source = .ok ts ∧ Assignment (maxNesting - 1) ts e ∧
        ∃ name us, ts = name :: us ∧ name.kind = .identifier := by
  rw [parse_eq_ok_iff]
  refine exists_congr fun ts => and_congr_right fun _ => ?_
  exact Sequence.singleton_iff.trans (Statement.expression_iff (n := maxNesting - 1))

/-- A source that is what a declared name starts from. -/
theorem parse_declaration_iff :
    parse ("let aa = " ++ source) = .ok ⟨[.declare .letBinding [⟨"aa", some e⟩]]⟩ ↔
      ∃ ts, tokenize source = .ok ts ∧ Assignment (maxNesting - 1) ts e := by
  rw [parse_eq_ok_iff]
  constructor
  · rintro ⟨ts, htokens, hprogram⟩
    obtain ⟨word, name, equals, us, rfl, _, _, _, _, he⟩ :=
      (Statement.declare_iff (n := maxNesting - 1)).mp (Sequence.singleton_iff.mp hprogram)
    have hspells := spells_of_tokenize htokens
    rw [String.toList_append, spells_declaration_iff] at hspells
    obtain ⟨later, hwords, hlater⟩ := hspells
    obtain ⟨us', htokens', hrespelled⟩ := hlater.tokenize
    refine ⟨us', htokens', Assignment.respell _ _ _ _ he ?_⟩
    simp only [List.map_cons, List.cons.injEq] at hwords
    exact hrespelled.trans hwords.2.2.2.symm
  · rintro ⟨us, htokens, he⟩
    have hspells := spells_declaration_iff.mpr ⟨_, rfl, spells_of_tokenize htokens⟩
    rw [← String.toList_append] at hspells
    obtain ⟨ts, htokens', hwords⟩ := hspells.tokenize
    obtain ⟨word, ts, rfl, hword, hwords⟩ := List.map_eq_cons_iff.mp hwords
    obtain ⟨name, ts, rfl, hname, hwords⟩ := List.map_eq_cons_iff.mp hwords
    obtain ⟨equals, ts, rfl, hequals, hwords⟩ := List.map_eq_cons_iff.mp hwords
    have he' := Assignment.respell _ _ _ _ he hwords
    refine ⟨_, htokens', Sequence.singleton_iff.mpr ?_⟩
    refine (Statement.declare_iff (n := maxNesting - 1)).mpr ⟨word, name, equals, ts, rfl, ?_⟩
    exact ⟨congrArg Spelling.kind hword, congrArg Spelling.kind hname,
      congrArg Spelling.text hname, congrArg Spelling.kind hequals, he'⟩

/-- **One expression, three ways.**  A program whose only statement is an
expression, and a program that declares a name with one, both give the
expression that the source alone gives; and the source gives it with a level to
spare.  Conversely, every expression that is read with a level to spare can be
declared, and it is a statement if it begins with an identifier. -/
theorem entry_points_agree (source : String) (e : Expr) :
    (parse source = .ok ⟨[.expression e]⟩ ↔
      parseExpression source = .ok e ∧
      OpensAtMost .assignmentExpression (maxNesting - 1)
        (Parser.unset.parseExpression source).2.history ∧
      ∃ t ts, tokenize source = .ok (t :: ts) ∧ t.kind = .identifier) ∧
    (parse ("let aa = " ++ source) = .ok ⟨[.declare .letBinding [⟨"aa", some e⟩]]⟩ ↔
      parseExpression source = .ok e ∧
      OpensAtMost .assignmentExpression (maxNesting - 1)
        (Parser.unset.parseExpression source).2.history) := by
  have hshallow : parseExpression source = .ok e ∧
      OpensAtMost .assignmentExpression (maxNesting - 1)
        (Parser.unset.parseExpression source).2.history ↔
      ∃ ts, tokenize source = .ok ts ∧ Assignment (maxNesting - 1) ts e :=
    parseExpression_shallow_iff (maxNesting - 1) 1 source e .unset
  rw [parse_declaration_iff, hshallow, ← and_assoc, hshallow, parse_expression_iff]
  refine ⟨?_, Iff.rfl⟩
  constructor
  · rintro ⟨ts, htokens, he, name, us, rfl, hname⟩
    exact ⟨⟨_, htokens, he⟩, name, us, htokens, hname⟩
  · rintro ⟨⟨ts, htokens, he⟩, t, us, htokens', hname⟩
    obtain rfl := Except.ok.inj (htokens.symm.trans htokens')
    exact ⟨_, htokens, he, t, us, rfl, hname⟩

end Sources

end TildeLang
