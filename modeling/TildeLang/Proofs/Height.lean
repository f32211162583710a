import TildeLang.Proofs.Siblings

/-!
# How high a tree can be

The **height** of a tree is the number of statements and expressions on its
longest path from the root to a leaf.  The limit on nesting is a limit on
levels, and two things add to the height of a tree: opening a level, and
joining one more operand to a **chain** of operators of one strength, which
opens none.

So the limit by itself bounds no height.  It bounds the height of a tree by the
length of its longest chain, and that is all: trees are bounded in height
exactly where their chains are bounded in length.

* `Expr.limited`, `Stmt.height_le` — expressions and statements are no higher
  than their levels and their chains allow;
* `Program.height_le_of_parse` — nor is a program that the parser answers with;
* `bounded_height_iff` — where the limit bounds the height of trees;
* `unbounded_height` — it does not everywhere.
-/

namespace TildeLang

/-! ### Heights and chains -/

namespace Expr

/-- The number of expressions on the longest path from the root to a leaf. -/
def height : Expr → Nat
  | literal _ => 1
  | identifier _ => 1
  | binary _ left right => max left.height right.height + 1
  | assign _ value => value.height + 1

/-- The number of operators in the chain that ends at the root. -/
def links : Expr → Nat
  | literal _ => 0
  | identifier _ => 0
  | binary op left _ => (if left.strength = op.strength then left.links else 0) + 1
  | assign _ _ => 0

/-- The number of operators in the longest chain. -/
def longestChain : Expr → Nat
  | literal _ => 0
  | identifier _ => 0
  | binary op left right =>
      max (binary op left right).links (max left.longestChain right.longestChain)
  | assign _ value => value.longestChain

end Expr

mutual

/-- The largest measure of a path in a statement: so much for every statement
on it, and the measure of the expression in which it ends. -/
def Stmt.largest (step : Nat) (measure : Expr → Nat) : Stmt → Nat
  | ifThen test consequent => max (measure test) (consequent.largest step measure) + step
  | ifThenElse test consequent alternate =>
      max (measure test) (max (consequent.largest step measure) (alternate.largest step measure))
        + step
  | block body => largestAll step measure body + step
  | declare _ declarators =>
      (declarators.map fun d => (d.init.map measure).getD 0).foldr max 0 + step
  | expression e => measure e + step

/-- The largest measure of a path in one of several statements. -/
def Stmt.largestAll (step : Nat) (measure : Expr → Nat) : List Stmt → Nat
  | [] => 0
  | s :: rest => max (s.largest step measure) (largestAll step measure rest)

end

/-- The number of statements and expressions on the longest path of a program
from the root to a leaf. -/
def Program.height (program : Program) : Nat := Stmt.largestAll 1 Expr.height program.body

/-- The number of operators in the longest chain of a program. -/
def Program.longestChain (program : Program) : Nat :=
  Stmt.largestAll 0 Expr.longestChain program.body

/-! ### Expressions -/

namespace Expr

variable {k : Nat} {e left right : Expr}

/-- How much a level adds to the height where chains have at most `k`
operators: a chain of sums, and a chain of products inside it. -/
def reach (k : Nat) : Nat := max 1 (2 * k)

/-- An expression that is no assignment is no higher than its own chain, a
chain of products where it is a sum, and what its levels add. -/
def HighestBy (k : Nat) (e : Expr) : Prop :=
  e.height ≤ e.links + (if e.strength = 1 then k else 0) + reach k * e.depth + 1

/-- What is claimed of the height of an expression. -/
structure Limited (k : Nat) (e : Expr) : Prop where
  levels : e.height ≤ reach k * e.levels + 1
  chains : 0 < e.strength → e.HighestBy k

theorem links_le_longestChain (e : Expr) : e.links ≤ e.longestChain := by
  cases e with
  | binary op left right => exact Nat.le_max_left _ _
  | _ => exact Nat.zero_le _

theorem links_eq_zero (h : 2 < e.strength) : e.links = 0 := by
  cases e with
  | binary op left right => cases op <;> simp [strength, BinaryOp.strength] at h
  | _ => rfl

/-- An operand between parentheses is inside one more level, and one that is
stronger than its operator adds a chain of products to a sum. -/
theorem Limited.operand {op : BinaryOp} {depth : Nat} (h : e.Limited k)
    (hlinks : e.links ≤ k)
    (hplace : e.levels ≤ depth ∨ op.strength < e.strength ∧ e.depth ≤ depth) :
    e.height ≤ (if op.strength = 1 then k else 0) + reach k * depth + 1 := by
  have hop : op.strength = 1 ∨ op.strength = 2 := by cases op <;> decide
  rcases hplace with hweak | ⟨hstrong, hdepth⟩
  · have hmul := Nat.mul_le_mul_left (reach k) hweak
    have hheight := h.levels
    omega
  · have hmul := Nat.mul_le_mul_left (reach k) hdepth
    have hheight := h.chains (by omega)
    rw [HighestBy, if_neg (by omega)] at hheight
    rcases hop with hsum | hproduct
    · rw [if_pos hsum]
      omega
    · rw [links_eq_zero (by omega)] at hheight
      rw [if_neg (by omega)]
      omega

/-- An operator adds one to the chain of its left operand, or begins a chain of
its own. -/
theorem Limited.binary {op : BinaryOp} (hleft : left.Limited k) (hright : right.Limited k)
    (hlinks : left.links ≤ k) (hlinks' : right.links ≤ k) :
    (binary op left right).HighestBy k := by
  have hdepth : (Expr.binary op left right).depth
      = max (if left.strength < op.strength then left.depth + 1 else left.depth)
        (if right.strength ≤ op.strength then right.depth + 1 else right.depth) := rfl
  have hchain : (Expr.binary op left right).links
      = (if left.strength = op.strength then left.links else 0) + 1 := rfl
  have hstrength : (Expr.binary op left right).strength = op.strength := rfl
  have hheight : (Expr.binary op left right).height = max left.height right.height + 1 := rfl
  rw [HighestBy, hchain, hstrength, hheight]
  generalize (Expr.binary op left right).depth = depth at hdepth
  have hsecond : right.height ≤ (if op.strength = 1 then k else 0) + reach k * depth + 1 := by
    refine hright.operand hlinks' ?_
    by_cases hweak : right.strength ≤ op.strength
    · rw [if_pos hweak] at hdepth
      exact Or.inl (by rw [Expr.levels]; omega)
    · rw [if_neg hweak] at hdepth
      exact Or.inr (by omega)
  by_cases hsame : left.strength = op.strength
  · have hpositive : 0 < op.strength := by cases op <;> decide
    have hfirst := hleft.chains (by omega)
    rw [if_neg (by omega)] at hdepth
    have hmul := Nat.mul_le_mul_left (reach k) (show left.depth ≤ depth by omega)
    rw [HighestBy, hsame] at hfirst
    rw [if_pos hsame]
    omega
  · have hfirst : left.height ≤ (if op.strength = 1 then k else 0) + reach k * depth + 1 := by
      refine hleft.operand hlinks ?_
      by_cases hweak : left.strength < op.strength
      · rw [if_pos hweak] at hdepth
        exact Or.inl (by rw [Expr.levels]; omega)
      · rw [if_neg hweak] at hdepth
        exact Or.inr (by omega)
    rw [if_neg hsame]
    omega

/-- **Expressions.**  An expression is no higher than its levels and its chains
allow. -/
theorem limited (hchain : e.longestChain ≤ k) : e.Limited k := by
  have hreach : 1 ≤ reach k ∧ 2 * k ≤ reach k := ⟨Nat.le_max_left _ _, Nat.le_max_right _ _⟩
  induction e with
  | literal l => exact ⟨Nat.le_add_left 1 _, fun _ => Nat.le_add_left 1 _⟩
  | identifier name => exact ⟨Nat.le_add_left 1 _, fun _ => Nat.le_add_left 1 _⟩
  | assign target value ih =>
      refine ⟨?_, fun h => absurd h (Nat.lt_irrefl 0)⟩
      have hvalue := (ih hchain).levels
      have hlevels : (assign target value).levels = value.levels + 1 := rfl
      rw [hlevels, Nat.mul_succ, height]
      omega
  | binary op left right ihl ihr =>
      simp only [longestChain, Nat.max_le] at hchain
      obtain ⟨hroot, hleft, hright⟩ := hchain
      have hheight : (Expr.binary op left right).HighestBy k :=
        (ihl hleft).binary (ihr hright) (left.links_le_longestChain.trans hleft)
          (right.links_le_longestChain.trans hright)
      refine ⟨?_, fun _ => hheight⟩
      rw [HighestBy] at hheight
      rw [levels, Nat.mul_succ]
      split at hheight <;> omega

/-- A chain is a path. -/
theorem longestChain_le_height (e : Expr) : e.longestChain ≤ e.height := by
  have hlinks : ∀ e : Expr, e.links ≤ e.height := by
    intro e
    induction e with
    | binary op left right ihl ihr =>
        rw [links, height]
        split <;> omega
    | _ => exact Nat.zero_le _
  induction e with
  | binary op left right ihl ihr =>
      have hroot := hlinks (.binary op left right)
      rw [longestChain]
      rw [height] at hroot ⊢
      omega
  | assign target value ih =>
      rw [longestChain, height]
      omega
  | _ => exact Nat.zero_le _

end Expr

/-! ### Statements -/

theorem foldr_max_le_iff {α : Type} {f : α → Nat} {l : List α} {n : Nat} :
    (l.map f).foldr max 0 ≤ n ↔ ∀ x ∈ l, f x ≤ n := by
  induction l with
  | nil => simp
  | cons x l ih => rw [List.map_cons, List.foldr_cons, Nat.max_le, ih, List.forall_mem_cons]

namespace Stmt

variable {step : Nat} {measure : Expr → Nat}

theorem largestAll_le_iff {body : List Stmt} {n : Nat} :
    largestAll step measure body ≤ n ↔ ∀ s ∈ body, s.largest step measure ≤ n := by
  induction body with
  | nil => simp [largestAll]
  | cons s rest ih => rw [largestAll, Nat.max_le, ih, List.forall_mem_cons]

/-- Larger steps and measures make paths larger. -/
theorem largest_mono {step' : Nat} {measure' : Expr → Nat} (hstep : step ≤ step')
    (hmeasure : ∀ e, measure e ≤ measure' e) (s : Stmt) :
    s.largest step measure ≤ s.largest step' measure' := by
  induction s with
  | ifThen test consequent ih =>
      have htest := hmeasure test
      rw [largest, largest]
      omega
  | ifThenElse test consequent alternate ihc iha =>
      have htest := hmeasure test
      rw [largest, largest]
      omega
  | block body ih =>
      have hbody : largestAll step measure body ≤ largestAll step' measure' body := by
        refine largestAll_le_iff.mpr fun s hs => (ih s hs).trans ?_
        exact largestAll_le_iff.mp (Nat.le_refl _) s hs
      rw [largest, largest]
      omega
  | declare binding declarators =>
      rw [largest, largest]
      refine Nat.add_le_add (foldr_max_le_iff.mpr fun d hd => ?_) hstep
      refine Nat.le_trans ?_ (foldr_max_le_iff.mp (Nat.le_refl _) d hd)
      cases d.init with
      | none => exact Nat.le_refl 0
      | some e => exact hmeasure e
  | expression e => exact Nat.add_le_add (hmeasure e) hstep

/-- More levels allow for more height. -/
theorem le_reach {height n m k : Nat} (h : height ≤ Expr.reach k * n + 1) (hle : n ≤ m) :
    height ≤ Expr.reach k * m + 1 :=
  h.trans (Nat.succ_le_succ (Nat.mul_le_mul_left _ hle))

/-- **Statements.**  A statement is no higher than its levels and its chains
allow. -/
theorem height_le {k : Nat} {s : Stmt} (h : s.largest 0 Expr.longestChain ≤ k) :
    s.largest 1 Expr.height ≤ Expr.reach k * s.levels + 1 := by
  have hreach : 1 ≤ Expr.reach k := Nat.le_max_left _ _
  induction s with
  | ifThen test consequent ih =>
      rw [largest, Nat.add_zero, Nat.max_le] at h
      rw [largest, levels, Nat.mul_succ]
      have htest := le_reach (Expr.limited h.1).levels
        (Nat.le_max_left test.levels consequent.levels)
      have hconsequent := le_reach (ih h.2) (Nat.le_max_right test.levels consequent.levels)
      omega
  | ifThenElse test consequent alternate ihc iha =>
      rw [largest, Nat.add_zero, Nat.max_le, Nat.max_le] at h
      rw [largest, levels, Nat.mul_succ]
      generalize hn : max test.levels (max consequent.levels alternate.levels) = n
      have htest := le_reach (m := n) (Expr.limited h.1).levels (by omega)
      have hconsequent := le_reach (m := n) (ihc h.2.1) (by omega)
      have halternate := le_reach (m := n) (iha h.2.2) (by omega)
      omega
  | block body ih =>
      rw [largest, Nat.add_zero, largestAll_le_iff] at h
      have hbody : largestAll 1 Expr.height body ≤ Expr.reach k * levelsAll body + 1 := by
        refine largestAll_le_iff.mpr fun s hs => le_reach (ih s hs (h s hs)) ?_
        exact levelsAll_le_iff.mp (Nat.le_refl _) s hs
      rw [largest, levels, Nat.mul_succ]
      omega
  | declare binding declarators =>
      rw [largest, Nat.add_zero, foldr_max_le_iff] at h
      rw [largest, levels, Nat.mul_succ]
      have hall : (declarators.map fun d => (d.init.map Expr.height).getD 0).foldr max 0
          ≤ Expr.reach k * (declarators.map Declarator.levels).foldr max 0 + 1 := by
        refine foldr_max_le_iff.mpr fun d hd => le_reach (n := d.levels) ?_ ?_
        · have hchain := h d hd
          rw [Declarator.levels]
          cases hinit : d.init with
          | none => exact Nat.zero_le _
          | some e =>
              rw [hinit] at hchain
              exact (Expr.limited hchain).levels
        · exact foldr_max_le_iff.mp (Nat.le_refl _) d hd
      omega
  | expression e =>
      rw [largest, levels, Nat.mul_succ]
      have hheight := (Expr.limited h).levels
      omega

end Stmt

/-! ### Programs -/

/-- A tree that the parser answers with is no higher than the limit and its
chains allow. -/
theorem Program.height_le_of_parse {source : String} {program : Program}
    (h : parse source = .ok program) :
    program.height ≤ Expr.reach program.longestChain * maxNesting + 1 := by
  have hlevels : Stmt.levelsAll program.body ≤ maxNesting :=
    (Program.Printable.of_parse h).levels
  have hchains : ∀ s ∈ program.body, s.largest 0 Expr.longestChain ≤ program.longestChain :=
    Stmt.largestAll_le_iff.mp (Nat.le_refl _)
  refine Stmt.largestAll_le_iff.mpr fun s hs => ?_
  exact Stmt.le_reach (Stmt.height_le (hchains s hs)) (Stmt.levelsAll_le_iff.mp hlevels s hs)

theorem Program.longestChain_le_height (program : Program) :
    program.longestChain ≤ program.height := by
  refine Stmt.largestAll_le_iff.mpr fun s hs => ?_
  refine (Stmt.largest_mono (Nat.zero_le 1) Expr.longestChain_le_height s).trans ?_
  exact Stmt.largestAll_le_iff.mp (Nat.le_refl _) s hs

/-- **Height and chains.**  Of the sources of any class, the trees that the
parser answers with are bounded in height exactly if they are bounded in the
length of their chains. -/
theorem bounded_height_iff (sources : String → Prop) :
    (∃ bound, ∀ source program, sources source → parse source = .ok program →
      program.height ≤ bound) ↔
    ∃ bound, ∀ source program, sources source → parse source = .ok program →
      program.longestChain ≤ bound := by
  constructor
  · rintro ⟨bound, h⟩
    refine ⟨bound, fun source program hsource hparse => ?_⟩
    exact program.longestChain_le_height.trans (h source program hsource hparse)
  · rintro ⟨bound, h⟩
    refine ⟨Expr.reach bound * maxNesting + 1, fun source program hsource hparse => ?_⟩
    have hreach : Expr.reach program.longestChain ≤ Expr.reach bound := by
      have hchain := h source program hsource hparse
      unfold Expr.reach
      omega
    have hheight := Program.height_le_of_parse hparse
    have hmul := Nat.mul_le_mul_right maxNesting hreach
    omega

/-! ### Chains without end -/

/-- Every operand of a chain adds one to its height. -/
theorem Expr.le_height_chain (left : Expr) (operands : List (BinaryOp × Expr)) :
    left.height + operands.length ≤ (left.chain operands).height := by
  induction operands generalizing left with
  | nil => exact Nat.le_refl _
  | cons next more ih =>
      have hchain := ih (.binary next.1 left next.2)
      rw [height] at hchain
      rw [chain_cons, List.length_cons]
      omega

/-- A sum of so many names, and one more. -/
def longSum (n : Nat) : Program :=
  ⟨[.expression ((Expr.identifier "aa").chain (List.replicate n (.add, .identifier "aa")))]⟩

/-- Sums of any length are read. -/
theorem parse_longSum (n : Nat) : parse (longSum (n + 1)).print = .ok (longSum (n + 1)) := by
  have hparse : parse "aa+aa" = .ok
      ⟨[.expression (.binary .add (.identifier "aa") (.identifier "aa"))]⟩ := by cbv
  have hstrength : ∀ next ∈ List.replicate (n + 1) (BinaryOp.add, Expr.identifier "aa"),
      next.1.strength = 1 := by
    intro next hnext
    obtain rfl := List.eq_of_mem_replicate hnext
    rfl
  refine siblings_operands (by simp [List.replicate_succ]) hstrength ?_ ?_
  · intro next hnext
    obtain rfl := List.eq_of_mem_replicate hnext
    exact .of_parse hparse
  · refine Program.sparesSlashes_of_not_mem ?_
    simp [Program.leaves, Stmt.leavesAll, Stmt.leaves, Expr.leaves_chain, Expr.leaves]

/-- **No bound.**  The limit on nesting does not bound the height of the trees
that the parser answers with. -/
theorem unbounded_height :
    ¬∃ bound, ∀ source program, parse source = .ok program → program.height ≤ bound := by
  rintro ⟨bound, h⟩
  have hbound := h _ _ (parse_longSum bound)
  have hheight := Expr.le_height_chain (.identifier "aa")
    (List.replicate (bound + 1) (.add, .identifier "aa"))
  rw [List.length_replicate] at hheight
  simp only [longSum, Program.height, Stmt.largestAll, Stmt.largest] at hbound
  omega

end TildeLang
