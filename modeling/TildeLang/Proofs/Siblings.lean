import TildeLang.Proofs.RoundTrip

/-!
# Siblings do not add up

Levels are opened inside one another, and not by what stands side by side.  So
any number of statements, of declarators or of operands can be put together
without opening more levels than one of them does, and if each of them can be
read by itself, they can be read together.

What is left to ask is that no slash comes after a sign for division, since
two slashes may begin a comment wherever they stand.

* `Expr.chain` — operands joined one after another;
* `Program.Printable.of_pieces` — a program is printable if it is made of what
  is;
* `siblings_statements`, `siblings_declarators`, `siblings_operands` — any
  number of siblings are read back.
-/

namespace TildeLang

/-- No slash is written after a sign for division. -/
def Program.SparesSlashes (program : Program) : Prop :=
  program.leaves.Pairwise fun leaf later => leaf = .op .divide → later.bearsSlash = false

theorem Program.sparesSlashes_of_not_mem {program : Program}
    (h : .op .divide ∉ program.leaves) : program.SparesSlashes :=
  List.pairwise_of_forall_mem_list fun _ hleaf _ _ hdivide => absurd (hdivide ▸ hleaf) h

/-- Operands that are joined to an expression one after another. -/
def Expr.chain (first : Expr) (operands : List (BinaryOp × Expr)) : Expr :=
  operands.foldl (fun left next => .binary next.1 left next.2) first

/-! ### Chains -/

namespace Expr

variable {left : Expr} {operands : List (BinaryOp × Expr)} {strength n : Nat}

theorem chain_cons (left : Expr) (next : BinaryOp × Expr) (more : List (BinaryOp × Expr)) :
    chain left (next :: more) = chain (.binary next.1 left next.2) more := rfl

theorem leaves_chain (left : Expr) (operands : List (BinaryOp × Expr)) :
    (chain left operands).leaves
      = left.leaves ++ operands.flatMap fun next => .op next.1 :: next.2.leaves := by
  induction operands generalizing left with
  | nil => simp [chain]
  | cons next more ih => simp [chain_cons, ih, leaves]

/-- A chain is no deeper than its beginning and any of its operands. -/
theorem depth_chain_le (hstrength : ∀ next ∈ operands, next.1.strength = strength)
    (hleft : left.strength = strength) (hdepth : left.depth ≤ n)
    (hoperands : ∀ next ∈ operands, ∃ first, (binary next.1 first next.2).depth ≤ n) :
    (chain left operands).depth ≤ n := by
  induction operands generalizing left with
  | nil => exact hdepth
  | cons next more ih =>
      rw [List.forall_mem_cons] at hstrength hoperands
      obtain ⟨first, hfirst⟩ := hoperands.1
      refine ih hstrength.2 hstrength.1 ?_ hoperands.2
      simp only [depth, Nat.max_le] at hfirst ⊢
      refine ⟨?_, hfirst.2⟩
      rwa [if_neg (by omega)]

theorem leadsWithName_chain (hstrength : ∀ next ∈ operands, next.1.strength = strength)
    (hleft : left.strength = strength) (hleads : left.leadsWithName = true) :
    (chain left operands).leadsWithName = true := by
  induction operands generalizing left with
  | nil => exact hleads
  | cons next more ih =>
      rw [List.forall_mem_cons] at hstrength
      refine ih hstrength.2 hstrength.1 ?_
      simp [leadsWithName, hleads, hleft, hstrength.1]

end Expr

/-! ### Putting pieces together -/

theorem Program.levels_singleton (s : Stmt) : (Program.mk [s]).levels = s.levels := by
  simp [levels, Stmt.levelsAll]

/-- A program is printable if its leaves are those of printable programs, and
its statements and its levels are as they should be. -/
theorem Program.Printable.of_pieces {program : Program}
    (hleaves : ∀ leaf ∈ program.leaves, ∃ piece : Program, piece.Printable ∧ leaf ∈ piece.leaves)
    (hmade : ∀ s ∈ program.statements, s.WellMade) (hslashes : program.SparesSlashes)
    (hlevels : program.levels ≤ maxNesting) : program.Printable where
  names name hname := by
    obtain ⟨piece, hpiece, hleaf⟩ := hleaves _ hname
    exact hpiece.names name hleaf
  literals l hl := by
    obtain ⟨piece, hpiece, hleaf⟩ := hleaves _ hl
    exact hpiece.literals l hleaf
  declares _ _ hs := hmade _ hs
  closed _ _ _ hs := hmade _ hs
  slashes := hslashes
  begins e hs := e.head_words_iff.mpr (hmade _ hs)
  levels := hlevels

/-- The text of a printable program is read back. -/
theorem Program.Printable.read_back {program : Program} (h : program.Printable) :
    parse program.print = .ok program := by
  obtain ⟨ts, htokens, hwords⟩ := h.tokenize
  exact parse_eq_ok_iff.mpr ⟨ts, htokens, Program.derives hwords h.levels h.wellMade⟩

/-- **Statements.**  Any number of statements, each of which is printable by
itself, are read back together. -/
theorem siblings_statements {body : List Stmt} (h : ∀ s ∈ body, (Program.mk [s]).Printable)
    (hslashes : (Program.mk body).SparesSlashes) :
    parse (Program.mk body).print = .ok ⟨body⟩ := by
  refine Program.Printable.read_back (.of_pieces ?_ ?_ hslashes ?_)
  · intro leaf hleaf
    rw [Program.leaves, Stmt.leavesAll_eq] at hleaf
    obtain ⟨s, hs, hleaf⟩ := List.mem_flatMap.mp hleaf
    exact ⟨⟨[s]⟩, h s hs, by simpa [Program.leaves, Stmt.leavesAll] using hleaf⟩
  · intro s' hs'
    rw [Program.statements, Stmt.statementsAll_eq] at hs'
    obtain ⟨s, hs, hs'⟩ := List.mem_flatMap.mp hs'
    exact (h s hs).wellMade s' (by simpa [Program.statements, Stmt.statementsAll] using hs')
  · refine Stmt.levelsAll_le_iff.mpr fun s hs => ?_
    simpa only [Program.levels_singleton] using (h s hs).levels

/-- **Declarators.**  Any number of declarators, each of which makes a printable
declaration by itself, are read back together. -/
theorem siblings_declarators {binding : Binding} {declarators : List Declarator}
    (hne : declarators ≠ [])
    (h : ∀ d ∈ declarators, (Program.mk [.declare binding [d]]).Printable)
    (hslashes : (Program.mk [.declare binding declarators]).SparesSlashes) :
    parse (Program.mk [.declare binding declarators]).print
      = .ok ⟨[.declare binding declarators]⟩ := by
  refine Program.Printable.read_back (.of_pieces ?_ ?_ hslashes ?_)
  · intro leaf hleaf
    simp only [Program.leaves, Stmt.leavesAll, Stmt.leaves, List.append_nil] at hleaf
    obtain ⟨d, hd, hleaf⟩ := List.mem_flatMap.mp hleaf
    exact ⟨_, h d hd, by simpa [Program.leaves, Stmt.leavesAll, Stmt.leaves] using hleaf⟩
  · intro s hs
    obtain rfl : s = .declare binding declarators := by
      simpa [Program.statements, Stmt.statementsAll, Stmt.statements] using hs
    exact hne
  · have hpositive : 0 < maxNesting := by decide
    have hall : (declarators.map Declarator.levels).foldr max 0 ≤ maxNesting - 1 := by
      refine Declarator.foldr_levels_le_iff.mpr fun d hd => ?_
      have hlevels := (h d hd).levels
      simp [Program.levels_singleton, Stmt.levels] at hlevels
      omega
    rw [Program.levels_singleton, Stmt.levels]
    omega

/-- **Operands.**  Any number of operands, each of which can be joined to the
first by a sign of the one strength, are read back together. -/
theorem siblings_operands {strength : Nat} {first : Expr} {operands : List (BinaryOp × Expr)}
    (hne : operands ≠ []) (hstrength : ∀ next ∈ operands, next.1.strength = strength)
    (h : ∀ next ∈ operands, (Program.mk [.expression (.binary next.1 first next.2)]).Printable)
    (hslashes : (Program.mk [.expression (first.chain operands)]).SparesSlashes) :
    parse (Program.mk [.expression (first.chain operands)]).print
      = .ok ⟨[.expression (first.chain operands)]⟩ := by
  obtain ⟨second, more, rfl⟩ := List.exists_cons_of_ne_nil hne
  have hsecond := h second List.mem_cons_self
  have hdepth : ∀ next ∈ second :: more,
      (Expr.binary next.1 first next.2).depth + 2 ≤ maxNesting := by
    intro next hnext
    have hlevels := (h next hnext).levels
    rwa [Program.levels_singleton, Stmt.levels, Expr.levels] at hlevels
  refine Program.Printable.read_back (.of_pieces ?_ ?_ hslashes ?_)
  · intro leaf hleaf
    have hleaf : leaf ∈ (first.chain (second :: more)).leaves := by
      simpa [Program.leaves, Stmt.leavesAll, Stmt.leaves] using hleaf
    rw [Expr.leaves_chain] at hleaf
    rcases List.mem_append.mp hleaf with hfirst | hoperand
    · refine ⟨_, hsecond, ?_⟩
      simp [Program.leaves, Stmt.leavesAll, Stmt.leaves, Expr.leaves, hfirst]
    · obtain ⟨next, hnext, hleaf⟩ := List.mem_flatMap.mp hoperand
      refine ⟨_, h next hnext, ?_⟩
      simp only [Program.leaves, Stmt.leavesAll, Stmt.leaves, Expr.leaves, List.append_nil]
      exact List.mem_append_right _ hleaf
  · intro s hs
    obtain rfl : s = .expression (first.chain (second :: more)) := by
      simpa [Program.statements, Stmt.statementsAll, Stmt.statements] using hs
    have hleads : (Expr.binary second.1 first second.2).leadsWithName = true :=
      hsecond.wellMade (.expression _)
        (by simp [Program.statements, Stmt.statementsAll, Stmt.statements])
    rw [List.forall_mem_cons] at hstrength
    rw [Stmt.WellMade, Expr.chain_cons]
    exact Expr.leadsWithName_chain hstrength.2 hstrength.1 hleads
  · have hsecond := hdepth second List.mem_cons_self
    have hchain : (first.chain (second :: more)).depth ≤ maxNesting - 2 := by
      rw [List.forall_mem_cons] at hstrength
      rw [Expr.chain_cons]
      refine Expr.depth_chain_le hstrength.2 hstrength.1 (by omega) ?_
      intro next hnext
      have hnext := hdepth next (List.mem_cons_of_mem _ hnext)
      exact ⟨first, by omega⟩
    rw [Program.levels_singleton, Stmt.levels, Expr.levels]
    omega

end TildeLang
