import TildeLang.Tree

/-!
# The grammar

The grammar of Tilde, as sets of phrases.  A phrase is a list of tokens
together with the tree that it stands for, and every production below says how
phrases are put together from shorter ones:

    Program    := Statement*
    Statement  := 'if' '(' Expression ')' Statement ('else' Statement)?
                | '{' Statement* '}'
                | ('let' | 'const') Declarator (',' Declarator)*
                | Expression                      -- that begins with an identifier
    Declarator := Identifier ('=' Assignment)?
    Expression := Assignment
    Assignment := Identifier '=' Assignment | Sum
    Sum        := Product (('+' | '-') Product)*     -- grouped to the left
    Product    := Primary (('*' | '/') Primary)*     -- grouped to the left
    Primary    := Literal | '(' Expression ')' | Identifier

An `else` belongs to the nearest `if` that can take it: the consequent of an
`if` that has an `else` is not itself open to one.  Parentheses leave no node.

The number that comes with `Assignment`, `Statement` and `Program` bounds the
**levels** of a derivation: no path from its root passes through more
statements and assignments together.  A production that is no level takes the
phrases of the level below as an argument.

* `Assignment.mono`, `Statement.mono` — more levels give more phrases;
* `Assignment.begins`, `Statement.begins` — the tokens with which phrases
  begin, so that none of them is empty.
-/

namespace TildeLang

/-- Whether a statement ends in an `if` without an `else`, so that an `else`
right after it would belong to that `if`. -/
def Stmt.isOpen : Stmt → Bool
  | ifThen _ _ => true
  | ifThenElse _ _ alternate => alternate.isOpen
  | block _ => false
  | declare _ _ => false
  | expression _ => false

/-- A token of a kind. -/
def specimen (kind : Kind) : Token where
  category := .identifier
  kind := kind
  value := .text ""
  raw := ""
  start := 0
  stop := 0
  position := Position.start

namespace Grammar

/-- A set of phrases: the lists of tokens in it, each with what it stands
for. -/
abbrev Phrases (α : Type) := List Token → α → Prop

/-- Any number of phrases, one after the other. -/
inductive Sequence {α : Type} (item : Phrases α) : Phrases (List α)
  | nil : Sequence item [] []
  | cons {ts us : List Token} {a : α} {as : List α}
      (head : item ts a) (tail : Sequence item us as) :
      Sequence item (ts ++ us) (a :: as)

/-- A phrase between parentheses, which leave no node. -/
inductive Parenthesized (group : Phrases Expr) : Phrases Expr
  | mk {left right : Token} {ts : List Token} {e : Expr}
      (hleft : left.kind = .leftParen) (inner : group ts e)
      (hright : right.kind = .rightParen) :
      Parenthesized group (left :: (ts ++ [right])) e

/-- The expressions that no operator can split, where `group` are the phrases
that may stand between parentheses. -/
inductive Primary (group : Phrases Expr) : Phrases Expr
  | literal {t : Token} {l : Literal} (hkind : l.kind.token = t.kind)
      (hvalue : l.value = t.value) : Primary group [t] (.literal l)
  | identifier {t : Token} (hkind : t.kind = .identifier) :
      Primary group [t] (.identifier t.raw)
  | parenthesized {ts : List Token} {e : Expr} (h : Parenthesized group ts e) :
      Primary group ts e

/-- Operands joined by operators of one strength, grouped to the left. -/
inductive Grouped (ops : List BinaryOp) (operand : Phrases Expr) : Phrases Expr
  | single {ts : List Token} {e : Expr} (only : operand ts e) : Grouped ops operand ts e
  | apply {ts us : List Token} {sign : Token} {op : BinaryOp} {left right : Expr}
      (first : Grouped ops operand ts left) (hop : op ∈ ops) (hsign : sign.kind = op.kind)
      (last : operand us right) :
      Grouped ops operand (ts ++ sign :: us) (.binary op left right)

/-- The operators that bind two primary expressions into a product. -/
def productOps : List BinaryOp := [.multiply, .divide]

/-- The operators that bind two products into a sum. -/
def sumOps : List BinaryOp := [.add, .sub]

/-- Products and quotients. -/
def Product (group : Phrases Expr) : Phrases Expr := Grouped productOps (Primary group)

/-- Sums and differences. -/
def Sum (group : Phrases Expr) : Phrases Expr := Grouped sumOps (Product group)

/-- One level of assignment, where `inner` are the phrases one level below. -/
inductive AssignmentOver (inner : Phrases Expr) : Phrases Expr
  | sum {ts : List Token} {e : Expr} (h : Sum inner ts e) : AssignmentOver inner ts e
  | assign {name equals : Token} {ts : List Token} {e : Expr}
      (hname : name.kind = .identifier) (hequals : equals.kind = .assign)
      (value : inner ts e) :
      AssignmentOver inner (name :: equals :: ts) (.assign name.raw e)

/-- Expressions of every strength, with at most so many levels on a path. -/
def Assignment : (levels : Nat) → Phrases Expr
  | 0 => fun _ _ => False
  | levels + 1 => AssignmentOver (Assignment levels)

/-- A declared name, with the expression that it starts from, if any. -/
inductive Declared (expression : Phrases Expr) : Phrases Declarator
  | bare {name : Token} (hname : name.kind = .identifier) :
      Declared expression [name] ⟨name.raw, none⟩
  | initialized {name equals : Token} {ts : List Token} {e : Expr}
      (hname : name.kind = .identifier) (hequals : equals.kind = .assign)
      (init : expression ts e) :
      Declared expression (name :: equals :: ts) ⟨name.raw, some e⟩

/-- A phrase after a comma. -/
inductive AfterComma {α : Type} (item : Phrases α) : Phrases α
  | mk {comma : Token} {ts : List Token} {a : α} (hcomma : comma.kind = .comma)
      (next : item ts a) : AfterComma item (comma :: ts) a

/-- One level of statement, where `expression` and `statement` are the phrases
one level below. -/
inductive StatementOver (expression : Phrases Expr) (statement : Phrases Stmt) : Phrases Stmt
  | ifThen {word : Token} {ts us : List Token} {test : Expr} {consequent : Stmt}
      (hword : word.kind = .ifWord) (htest : Parenthesized expression ts test)
      (hconsequent : statement us consequent) :
      StatementOver expression statement (word :: (ts ++ us)) (.ifThen test consequent)
  | ifThenElse {word other : Token} {ts us vs : List Token} {test : Expr}
      {consequent alternate : Stmt}
      (hword : word.kind = .ifWord) (htest : Parenthesized expression ts test)
      (hconsequent : statement us consequent) (hclosed : consequent.isOpen = false)
      (hother : other.kind = .elseWord) (halternate : statement vs alternate) :
      StatementOver expression statement (word :: (ts ++ (us ++ other :: vs)))
        (.ifThenElse test consequent alternate)
  | block {left right : Token} {ts : List Token} {body : List Stmt}
      (hleft : left.kind = .leftBrace) (hbody : Sequence statement ts body)
      (hright : right.kind = .rightBrace) :
      StatementOver expression statement (left :: (ts ++ [right])) (.block body)
  | declare {word : Token} {ts us : List Token} {binding : Binding} {first : Declarator}
      {more : List Declarator}
      (hword : word.kind = binding.kind) (hfirst : Declared expression ts first)
      (hmore : Sequence (AfterComma (Declared expression)) us more) :
      StatementOver expression statement (word :: (ts ++ us)) (.declare binding (first :: more))
  | expression {name : Token} {ts : List Token} {e : Expr} (hname : name.kind = .identifier)
      (he : expression (name :: ts) e) :
      StatementOver expression statement (name :: ts) (.expression e)

/-- Statements, with at most so many levels on a path. -/
def Statement : (levels : Nat) → Phrases Stmt
  | 0 => fun _ _ => False
  | levels + 1 => StatementOver (Assignment levels) (Statement levels)

/-- Programs, with at most so many levels on a path. -/
def Program (levels : Nat) : Phrases TildeLang.Program := fun ts program =>
  Sequence (Statement levels) ts program.body

/-- What holds of every phrase holds of every phrase of a sequence. -/
theorem Sequence.forall_mem {α : Type} {item : Phrases α} {property : α → Prop}
    {ts : List Token} {as : List α} (h : Sequence item ts as)
    (hitem : ∀ ts a, item ts a → property a) : ∀ a ∈ as, property a := by
  induction h with
  | nil => simp
  | cons head tail ih => exact List.forall_mem_cons.mpr ⟨hitem _ _ head, ih⟩

/-! ### More levels give more phrases -/

section Mono

variable {group group' : Phrases Expr} {ts : List Token}

theorem Sequence.mono {α : Type} {item item' : Phrases α} {as : List α}
    (hle : ∀ ts a, item ts a → item' ts a) (h : Sequence item ts as) :
    Sequence item' ts as := by
  induction h with
  | nil => exact .nil
  | cons head tail ih => exact .cons (hle _ _ head) ih

theorem Parenthesized.mono {e : Expr} (hle : ∀ ts e, group ts e → group' ts e)
    (h : Parenthesized group ts e) : Parenthesized group' ts e := by
  obtain ⟨hleft, inner, hright⟩ := h
  exact .mk hleft (hle _ _ inner) hright

theorem Primary.mono {e : Expr} (hle : ∀ ts e, group ts e → group' ts e)
    (h : Primary group ts e) : Primary group' ts e := by
  cases h with
  | literal hkind hvalue => exact .literal hkind hvalue
  | identifier hkind => exact .identifier hkind
  | parenthesized h => exact .parenthesized (h.mono hle)

theorem Grouped.mono {ops : List BinaryOp} {operand operand' : Phrases Expr} {e : Expr}
    (hle : ∀ ts e, operand ts e → operand' ts e) (h : Grouped ops operand ts e) :
    Grouped ops operand' ts e := by
  induction h with
  | single only => exact .single (hle _ _ only)
  | apply first hop hsign last ih => exact .apply ih hop hsign (hle _ _ last)

theorem Product.mono {e : Expr} (hle : ∀ ts e, group ts e → group' ts e)
    (h : Product group ts e) : Product group' ts e :=
  Grouped.mono (fun _ _ => Primary.mono hle) h

theorem Sum.mono {e : Expr} (hle : ∀ ts e, group ts e → group' ts e)
    (h : Sum group ts e) : Sum group' ts e :=
  Grouped.mono (fun _ _ => Product.mono hle) h

/-- More levels give more expressions. -/
theorem Assignment.mono {n m : Nat} (hle : n ≤ m) {ts : List Token} {e : Expr}
    (h : Assignment n ts e) : Assignment m ts e := by
  induction n generalizing m ts e with
  | zero => exact h.elim
  | succ n ih =>
      obtain ⟨m, rfl⟩ : ∃ k, m = k + 1 := ⟨m - 1, by omega⟩
      have hinner : ∀ us d, Assignment n us d → Assignment m us d :=
        fun _ _ => ih (by omega)
      cases h with
      | sum h => exact .sum (h.mono hinner)
      | assign hname hequals value => exact .assign hname hequals (hinner _ _ value)

theorem Declared.mono {d : Declarator} (hle : ∀ ts e, group ts e → group' ts e)
    (h : Declared group ts d) : Declared group' ts d := by
  cases h with
  | bare hname => exact .bare hname
  | initialized hname hequals init => exact .initialized hname hequals (hle _ _ init)

theorem AfterComma.mono {α : Type} {item item' : Phrases α} {a : α}
    (hle : ∀ ts a, item ts a → item' ts a) (h : AfterComma item ts a) :
    AfterComma item' ts a := by
  obtain ⟨hcomma, next⟩ := h
  exact .mk hcomma (hle _ _ next)

/-- More levels give more statements. -/
theorem Statement.mono {n m : Nat} (hle : n ≤ m) {ts : List Token} {s : Stmt}
    (h : Statement n ts s) : Statement m ts s := by
  induction n generalizing m ts s with
  | zero => exact h.elim
  | succ n ih =>
      obtain ⟨m, rfl⟩ : ∃ k, m = k + 1 := ⟨m - 1, by omega⟩
      have hexpr : ∀ us e, Assignment n us e → Assignment m us e :=
        fun _ _ => Assignment.mono (by omega)
      have hstmt : ∀ us s, Statement n us s → Statement m us s :=
        fun _ _ => ih (by omega)
      cases h with
      | ifThen hword htest hconsequent =>
          exact .ifThen hword (htest.mono hexpr) (hstmt _ _ hconsequent)
      | ifThenElse hword htest hconsequent hclosed hother halternate =>
          exact .ifThenElse hword (htest.mono hexpr) (hstmt _ _ hconsequent) hclosed hother
            (hstmt _ _ halternate)
      | block hleft hbody hright => exact .block hleft (hbody.mono hstmt) hright
      | declare hword hfirst hmore =>
          exact .declare hword (hfirst.mono hexpr)
            (hmore.mono fun _ _ => AfterComma.mono fun _ _ => Declared.mono hexpr)
      | expression hname he => exact .expression hname (hexpr _ _ he)

end Mono

/-! ### The first token of a phrase -/

/-- Whether a list of tokens begins with a token of an accepted kind. -/
def startsWith (accepts : Kind → Bool) (ts : List Token) : Bool :=
  (ts.head?.map Token.kind).any accepts

@[simp]
theorem startsWith_nil (accepts : Kind → Bool) : startsWith accepts [] = false := rfl

@[simp]
theorem startsWith_cons (accepts : Kind → Bool) (t : Token) (ts : List Token) :
    startsWith accepts (t :: ts) = accepts t.kind := rfl

theorem startsWith_append {accepts : Kind → Bool} {ts : List Token}
    (h : startsWith accepts ts = true) (us : List Token) :
    startsWith accepts (ts ++ us) = true := by
  cases ts with
  | nil => simp at h
  | cons t ts => exact h

theorem startsWith_eq_false_of_imp {accepts accepts' : Kind → Bool} {ts : List Token}
    (himp : ∀ kind, accepts kind = true → accepts' kind = true)
    (h : startsWith accepts' ts = false) : startsWith accepts ts = false := by
  cases ts with
  | nil => rfl
  | cons t ts =>
      rw [startsWith_cons] at h ⊢
      exact Bool.eq_false_iff.mpr fun haccepts => by simp [himp _ haccepts] at h

theorem ne_nil_of_startsWith {accepts : Kind → Bool} {ts : List Token}
    (h : startsWith accepts ts = true) : ts ≠ [] := by
  intro heq
  subst heq
  simp at h

/-- The kinds of token with which an expression can begin. -/
def beginsExpression : Kind → Bool
  | .identifier | .leftParen => true
  | kind => kind.isLiteral

/-- The kinds of token with which a statement can begin. -/
def beginsStatement : Kind → Bool
  | .ifWord | .leftBrace | .letWord | .constWord | .identifier => true
  | _ => false

theorem beginsExpression_of_isLiteral {kind : Kind} (h : kind.isLiteral = true) :
    beginsExpression kind = true := by
  cases kind <;> simp_all [Kind.isLiteral, beginsExpression]

theorem Grouped.begins {ops : List BinaryOp} {operand : Phrases Expr} {ts : List Token}
    {e : Expr} {accepts : Kind → Bool}
    (hoperand : ∀ ts e, operand ts e → startsWith accepts ts = true)
    (h : Grouped ops operand ts e) : startsWith accepts ts = true := by
  induction h with
  | single only => exact hoperand _ _ only
  | apply first hop hsign last ih => exact startsWith_append ih _

theorem Primary.begins {group : Phrases Expr} {ts : List Token} {e : Expr}
    (h : Primary group ts e) : startsWith beginsExpression ts = true := by
  cases h with
  | literal hkind hvalue =>
      exact beginsExpression_of_isLiteral (hkind ▸ LiteralKind.isLiteral_token _)
  | identifier hkind => simp [hkind, beginsExpression]
  | parenthesized h =>
      obtain ⟨hleft, inner, hright⟩ := h
      simp [hleft, beginsExpression]

theorem Sum.begins {group : Phrases Expr} {ts : List Token} {e : Expr}
    (h : Sum group ts e) : startsWith beginsExpression ts = true :=
  Grouped.begins (fun _ _ => Grouped.begins fun _ _ => Primary.begins) h

/-- Every expression begins with a token that can begin one. -/
theorem Assignment.begins {n : Nat} {ts : List Token} {e : Expr}
    (h : Assignment n ts e) : startsWith beginsExpression ts = true := by
  cases n with
  | zero => exact h.elim
  | succ n =>
      cases h with
      | sum h => exact h.begins
      | assign hname hequals value => simp [hname, beginsExpression]

/-- Every statement begins with a token that can begin one. -/
theorem Statement.begins {n : Nat} {ts : List Token} {s : Stmt}
    (h : Statement n ts s) : startsWith beginsStatement ts = true := by
  cases n with
  | zero => exact h.elim
  | succ n =>
      cases h with
      | ifThen hword htest hconsequent => simp [hword, beginsStatement]
      | ifThenElse hword htest hconsequent hclosed hother halternate =>
          simp [hword, beginsStatement]
      | block hleft hbody hright => simp [hleft, beginsStatement]
      | @declare word ts us binding first more hword hfirst hmore =>
          cases binding <;> simp [hword, Binding.kind, beginsStatement]
      | expression hname he => simp [hname, beginsStatement]

end Grammar

end TildeLang
