import TildeLang.Proofs.Parts
import TildeLang.Parse.Source

/-!
# Printing

A tree is printed as its **words**, separated by single spaces.  A word is
what is written for one token: its kind, its value and its text.  Parentheses
are written only around operands that need them.

The printed text opens a **level** for every statement, for every expression,
for every assigned value and for every pair of parentheses around an operand.

* `Program.print` — the text of a program;
* `Program.levels` — how many levels the text opens at once;
* `Program.Printable` — what is asked of a program for its text to be read
  back;
* `Program.leaves_eq` — the leaves of a program are written in their order.
-/

namespace TildeLang

/-- What is written for one token. -/
structure Spelling where
  kind : Kind
  value : Value
  text : String
deriving DecidableEq

/-- A token without its place. -/
def Token.spelling (t : Token) : Spelling := ⟨t.kind, t.value, t.raw⟩

namespace Spelling

/-- A word that stands for itself. -/
def plain (kind : Kind) (text : String) : Spelling := ⟨kind, .text text, text⟩

/-- A name. -/
def name (text : String) : Spelling := plain .identifier text

def leftParen : Spelling := plain .leftParen "("
def rightParen : Spelling := plain .rightParen ")"
def leftBrace : Spelling := plain .leftBrace "\x7b"
def rightBrace : Spelling := plain .rightBrace "\x7d"
def comma : Spelling := plain .comma ","
def equals : Spelling := plain .assign "="
def ifWord : Spelling := plain .ifWord "if"
def elseWord : Spelling := plain .elseWord "else"

/-- Words, between parentheses where these are needed. -/
def grouped (needed : Bool) (words : List Spelling) : List Spelling :=
  if needed then leftParen :: (words ++ [rightParen]) else words

end Spelling

/-- The text of a literal: its value written out, between quotes if the kind asks
for them. -/
def Literal.text (l : Literal) : String :=
  match l.kind with
  | .string => String.ofList ('"' :: (l.value.describe.toList ++ ['"']))
  | .char => String.ofList ('\'' :: (l.value.describe.toList ++ ['\'']))
  | _ => l.value.describe

def Literal.spelling (l : Literal) : Spelling := ⟨l.kind.token, l.value, l.text⟩

def BinaryOp.spelling (op : BinaryOp) : Spelling := .plain op.kind op.symbol

def Binding.spelling : Binding → Spelling
  | letBinding => .plain .letWord "let"
  | constBinding => .plain .constWord "const"

/-- The words of an expression. -/
def Expr.words : Expr → List Spelling
  | literal l => [l.spelling]
  | identifier name => [.name name]
  | binary op left right =>
      Spelling.grouped (left.strength < op.strength) left.words ++
        op.spelling :: Spelling.grouped (right.strength ≤ op.strength) right.words
  | assign target value => .name target :: .equals :: value.words

/-- The words of a declarator. -/
def Declarator.words (d : Declarator) : List Spelling :=
  match d.init with
  | none => [.name d.name]
  | some e => .name d.name :: .equals :: e.words

/-- The words of declarators, with commas between them. -/
def Declarator.wordsAll : List Declarator → List Spelling
  | [] => []
  | first :: more => first.words ++ more.flatMap fun d => .comma :: d.words

mutual

/-- The words of a statement. -/
def Stmt.words : Stmt → List Spelling
  | ifThen test consequent =>
      .ifWord :: .leftParen :: (test.words ++ .rightParen :: consequent.words)
  | ifThenElse test consequent alternate =>
      .ifWord :: .leftParen :: (test.words ++ .rightParen ::
        (consequent.words ++ .elseWord :: alternate.words))
  | block body => .leftBrace :: (wordsAll body ++ [.rightBrace])
  | declare binding declarators => binding.spelling :: Declarator.wordsAll declarators
  | expression e => e.words

/-- The words of statements one after another. -/
def Stmt.wordsAll : List Stmt → List Spelling
  | [] => []
  | s :: rest => s.words ++ wordsAll rest

end

/-- The words of a program. -/
def Program.words (program : Program) : List Spelling := Stmt.wordsAll program.body

/-- Texts with single spaces between them. -/
def spaced : List (List Char) → List Char
  | [] => []
  | first :: more => first ++ more.flatMap fun text => ' ' :: text

/-- The text of a program. -/
def Program.print (program : Program) : String :=
  String.ofList (spaced (program.words.map fun w => w.text.toList))

/-- How many levels are open at once inside an expression, its own not
counted. -/
def Expr.depth : Expr → Nat
  | literal _ => 0
  | identifier _ => 0
  | binary op left right =>
      max (if left.strength < op.strength then left.depth + 1 else left.depth)
        (if right.strength ≤ op.strength then right.depth + 1 else right.depth)
  | assign _ value => value.depth + 1

/-- How many levels are open at once in an expression. -/
def Expr.levels (e : Expr) : Nat := e.depth + 1

/-- How many levels are open at once in a declarator. -/
def Declarator.levels (d : Declarator) : Nat := (d.init.map Expr.levels).getD 0

mutual

/-- How many levels are open at once in a statement. -/
def Stmt.levels : Stmt → Nat
  | ifThen test consequent => max test.levels consequent.levels + 1
  | ifThenElse test consequent alternate =>
      max test.levels (max consequent.levels alternate.levels) + 1
  | block body => levelsAll body + 1
  | declare _ declarators => (declarators.map Declarator.levels).foldr max 0 + 1
  | expression e => e.levels + 1

/-- How many levels are open at once in statements one after another. -/
def Stmt.levelsAll : List Stmt → Nat
  | [] => 0
  | s :: rest => max s.levels (levelsAll rest)

end

theorem Declarator.foldr_levels_le_iff {declarators : List Declarator} {n : Nat} :
    (declarators.map levels).foldr max 0 ≤ n ↔ ∀ d ∈ declarators, d.levels ≤ n := by
  induction declarators with
  | nil => simp
  | cons d more ih => rw [List.map_cons, List.foldr_cons, Nat.max_le, ih, List.forall_mem_cons]

theorem Stmt.levelsAll_le_iff {body : List Stmt} {n : Nat} :
    levelsAll body ≤ n ↔ ∀ s ∈ body, s.levels ≤ n := by
  induction body with
  | nil => simp [levelsAll]
  | cons s rest ih => rw [levelsAll, Nat.max_le, ih, List.forall_mem_cons]

/-- How many levels are open at once in a program. -/
def Program.levels (program : Program) : Nat := Stmt.levelsAll program.body

/-- What is asked of a program for its text to be read back. -/
structure Program.Printable (program : Program) : Prop extends program.Regular where
  /-- An expression that is a statement is printed with a name in front. -/
  begins : ∀ e, Stmt.expression e ∈ program.statements →
    e.words.head?.map Spelling.kind = some .identifier
  /-- No more levels are open at once than may be. -/
  levels : program.levels ≤ maxNesting

/-! ### The first word -/

theorem Expr.words_ne_nil (e : Expr) : e.words ≠ [] := by
  cases e <;> simp [words]

/-- **The first word.**  An expression is printed with a name in front exactly
when it leads with a name. -/
theorem Expr.head_words_iff (e : Expr) :
    e.words.head?.map Spelling.kind = some .identifier ↔ e.leadsWithName = true := by
  induction e with
  | literal l =>
      have hkind : l.kind.token ≠ .identifier := by
        cases l.kind <;> decide
      simpa [words, leadsWithName, Literal.spelling] using hkind
  | identifier name => simp [words, leadsWithName, Spelling.name, Spelling.plain]
  | binary op left right ihl ihr =>
      by_cases hweak : left.strength < op.strength
      · simp [words, leadsWithName, Spelling.grouped, hweak, Nat.not_le.mpr hweak,
          Spelling.leftParen, Spelling.plain]
      · obtain ⟨w, ws, hwords⟩ := List.exists_cons_of_ne_nil left.words_ne_nil
        simp [words, leadsWithName, Spelling.grouped, hweak, Nat.not_lt.mp hweak, hwords, ← ihl]
  | assign target value ih => simp [words, leadsWithName, Spelling.name, Spelling.plain]

/-! ### The leaves among the words -/

/-- The leaf that a word writes, if it writes one. -/
def Spelling.leaf? (w : Spelling) : Option Leaf :=
  match LiteralKind.ofToken? w.kind, w.kind with
  | some k, _ => some (.literal ⟨k, w.value⟩)
  | none, .identifier => some (.name w.text)
  | none, .add => some (.op .add)
  | none, .sub => some (.op .sub)
  | none, .multiply => some (.op .multiply)
  | none, .divide => some (.op .divide)
  | none, _ => none

namespace Spelling

/-- A word of the kind and the value of a literal writes that literal. -/
theorem leaf?_literal {w : Spelling} {l : Literal} (hkind : l.kind.token = w.kind)
    (hvalue : l.value = w.value) : w.leaf? = some (.literal l) := by
  have hk := LiteralKind.ofToken?_eq_some_iff.mpr hkind
  simp [leaf?, hk, ← hvalue]

theorem leaf?_name {w : Spelling} (h : w.kind = .identifier) :
    w.leaf? = some (.name w.text) := by
  simp [leaf?, h, LiteralKind.ofToken?]

theorem leaf?_op {w : Spelling} {op : BinaryOp} (h : w.kind = op.kind) :
    w.leaf? = some (.op op) := by
  cases op <;> simp_all [leaf?, BinaryOp.kind, LiteralKind.ofToken?]

theorem leaf?_eq_name {w : Spelling} {text : String} (h : w.leaf? = some (.name text)) :
    w.kind = .identifier ∧ w.text = text := by
  unfold leaf? at h
  split at h <;> simp_all

theorem leaf?_eq_literal {w : Spelling} {l : Literal} (h : w.leaf? = some (.literal l)) :
    l.kind.token = w.kind ∧ l.value = w.value := by
  unfold leaf? at h
  split at h
  · rename_i hk
    obtain rfl := Leaf.literal.inj (Option.some.inj h)
    exact ⟨LiteralKind.ofToken?_eq_some_iff.mp hk, rfl⟩
  all_goals cases h

theorem leaf?_eq_op {w : Spelling} {op : BinaryOp} (h : w.leaf? = some (.op op)) :
    w.kind = op.kind := by
  unfold leaf? at h
  split at h <;> simp_all [BinaryOp.kind] <;> subst h <;> rfl

/-- The kinds of the words that write no leaf. -/
def isMark : Kind → Bool
  | .leftParen | .rightParen | .leftBrace | .rightBrace | .comma | .assign | .ifWord
  | .elseWord | .letWord | .constWord => true
  | _ => false

theorem leaf?_mark {w : Spelling} (h : isMark w.kind = true) : w.leaf? = none := by
  cases hkind : w.kind <;> simp_all [leaf?, isMark, LiteralKind.ofToken?]

theorem filterMap_grouped (needed : Bool) (words : List Spelling) :
    (grouped needed words).filterMap leaf? = words.filterMap leaf? := by
  have hleft : leftParen.leaf? = none := leaf?_mark rfl
  have hright : rightParen.leaf? = none := leaf?_mark rfl
  cases needed <;> simp [grouped, hleft, hright]

end Spelling

/-- The leaves of an expression are written in their order. -/
theorem Expr.leaves_eq (e : Expr) : e.leaves = e.words.filterMap Spelling.leaf? := by
  have hequals : Spelling.equals.leaf? = none := Spelling.leaf?_mark rfl
  have hname : ∀ name, (Spelling.name name).leaf? = some (.name name) :=
    fun _ => Spelling.leaf?_name rfl
  induction e with
  | literal l => simp [leaves, words, Spelling.leaf?_literal (w := l.spelling) rfl rfl]
  | identifier name => simp [leaves, words, hname]
  | binary op left right ihl ihr =>
      have hop : op.spelling.leaf? = some (.op op) := Spelling.leaf?_op rfl
      simp [leaves, words, Spelling.filterMap_grouped, hop, ihl, ihr]
  | assign target value ih => simp [leaves, words, hname, hequals, ih]

theorem Declarator.leaves_eq (d : Declarator) :
    d.leaves = d.words.filterMap Spelling.leaf? := by
  have hequals : Spelling.equals.leaf? = none := Spelling.leaf?_mark rfl
  have hname : ∀ name, (Spelling.name name).leaf? = some (.name name) :=
    fun _ => Spelling.leaf?_name rfl
  obtain ⟨name, init⟩ := d
  cases init with
  | none => simp [leaves, words, hname]
  | some e => simp [leaves, words, hname, hequals, Expr.leaves_eq]

theorem Declarator.leavesAll_eq (declarators : List Declarator) :
    declarators.flatMap leaves = (wordsAll declarators).filterMap Spelling.leaf? := by
  have hcomma : Spelling.comma.leaf? = none := Spelling.leaf?_mark rfl
  cases declarators with
  | nil => rfl
  | cons first more =>
      have hmore : (more.flatMap fun d => .comma :: d.words).filterMap Spelling.leaf?
          = more.flatMap leaves := by
        induction more with
        | nil => rfl
        | cons d more ih => simp [hcomma, leaves_eq, ih]
      rw [wordsAll, List.filterMap_append, hmore, List.flatMap_cons, leaves_eq]

theorem Stmt.leavesAll_eq_filterMap {body : List Stmt}
    (h : ∀ s ∈ body, s.leaves = s.words.filterMap Spelling.leaf?) :
    leavesAll body = (wordsAll body).filterMap Spelling.leaf? := by
  induction body with
  | nil => rfl
  | cons s rest ih =>
      rw [List.forall_mem_cons] at h
      rw [leavesAll, wordsAll, List.filterMap_append, h.1, ih h.2]

/-- The leaves of a statement are written in their order. -/
theorem Stmt.leaves_eq (s : Stmt) : s.leaves = s.words.filterMap Spelling.leaf? := by
  have hif : Spelling.ifWord.leaf? = none := Spelling.leaf?_mark rfl
  have helse : Spelling.elseWord.leaf? = none := Spelling.leaf?_mark rfl
  have hleft : Spelling.leftParen.leaf? = none := Spelling.leaf?_mark rfl
  have hright : Spelling.rightParen.leaf? = none := Spelling.leaf?_mark rfl
  induction s with
  | ifThen test consequent ih =>
      simp [leaves, words, Expr.leaves_eq, hif, hleft, hright, ih]
  | ifThenElse test consequent alternate ihc iha =>
      simp [leaves, words, Expr.leaves_eq, hif, helse, hleft, hright, ihc, iha]
  | block body ih =>
      have hopen : Spelling.leftBrace.leaf? = none := Spelling.leaf?_mark rfl
      have hclose : Spelling.rightBrace.leaf? = none := Spelling.leaf?_mark rfl
      simp [leaves, words, hopen, hclose, leavesAll_eq_filterMap ih]
  | declare binding declarators =>
      have hword : binding.spelling.leaf? = none := by
        cases binding <;> exact Spelling.leaf?_mark rfl
      simp [leaves, words, hword, Declarator.leavesAll_eq]
  | expression e => exact e.leaves_eq

/-- The leaves of a program are written in their order. -/
theorem Program.leaves_eq (program : Program) :
    program.leaves = program.words.filterMap Spelling.leaf? :=
  Stmt.leavesAll_eq_filterMap fun s _ => s.leaves_eq

end TildeLang
