import Mathlib
import TildeLang.Proofs.Counter
import TildeLang.Proofs.Derivations

/-!
# Targets of assignments

What stands before an equals sign must be a name without parentheses.  The tree
keeps no parentheses, so the parser looks at the shape of the tree and at the
token with which the sum began, and from the two it tells a name from a name
between parentheses.  It tells right: wherever a run of the parser comes to an
equals sign after a sum, it goes on exactly if the sum is one token, a name, and
otherwise the whole run ends there.

* `Grammar.NameIn` — a name between pairs of parentheses;
* `Grammar.Sum.identifier_iff` — the sums that stand for a name;
* `Outlasts` — a run that holds the run of a part in it;
* `Parser.ToldIn` — how the levels of a run go on;
* `target_checked` — every target in a run is judged rightly.
-/

namespace TildeLang

/-! ### Sums that stand for a name -/

namespace Grammar

/-- One name between so many pairs of parentheses. -/
inductive NameIn : Nat → List Token → Prop
  | bare {name : Token} (hname : name.kind = .identifier) : NameIn 0 [name]
  | wrapped {pairs : Nat} {left right : Token} {ts : List Token}
      (hleft : left.kind = .leftParen) (inner : NameIn pairs ts)
      (hright : right.kind = .rightParen) : NameIn (pairs + 1) (left :: (ts ++ [right]))

variable {group : Phrases Expr} {n pairs : Nat} {ts : List Token} {e : Expr} {name : String}

theorem nameIn_zero_iff : NameIn 0 ts ↔ ∃ name : Token, ts = [name] ∧ name.kind = .identifier := by
  constructor
  · rintro ⟨hname⟩
    exact ⟨_, rfl, hname⟩
  · rintro ⟨name, rfl, hname⟩
    exact .bare hname

/-- A name is a name without parentheses exactly if it comes first. -/
theorem NameIn.begins_iff (h : NameIn pairs ts) :
    startsWith (· == .identifier) ts = true ↔ pairs = 0 := by
  cases h with
  | bare hname => simp [hname]
  | wrapped hleft inner hright => simp [hleft]

theorem NameIn.leaves_eq (h : NameIn pairs ts) :
    ∃ name, ts.filterMap Token.leaf? = [.name name] := by
  induction h with
  | @bare name hname => exact ⟨name.raw, by simp [Token.leaf?_name hname]⟩
  | wrapped hleft inner hright ih =>
      obtain ⟨name, hleaves⟩ := ih
      exact ⟨name, by simp [Token.leaf?_mark hleft rfl, Token.leaf?_mark hright rfl, hleaves]⟩

theorem Sum.nameIn (hgroup : ∀ us name, group us (.identifier name) → ∃ pairs, NameIn pairs us)
    (h : Sum group ts (.identifier name)) : ∃ pairs, NameIn pairs ts := by
  cases h with
  | single h =>
      cases h with
      | single h =>
          cases h with
          | identifier hkind => exact ⟨0, .bare hkind⟩
          | parenthesized h =>
              obtain ⟨hleft, inner, hright⟩ := h
              obtain ⟨pairs, hinner⟩ := hgroup _ _ inner
              exact ⟨pairs + 1, .wrapped hleft hinner hright⟩

theorem Assignment.nameIn (h : Assignment n ts (.identifier name)) :
    ∃ pairs, NameIn pairs ts := by
  induction n generalizing ts name with
  | zero => exact h.elim
  | succ n ih =>
      cases h with
      | sum h => exact h.nameIn fun _ _ => ih

end Grammar

theorem Expr.leaves_ne_nil (e : Expr) : e.leaves ≠ [] := by
  cases e <;> simp [leaves]

/-- Only a name has a name for its one leaf. -/
theorem Expr.eq_identifier_of_leaves {e : Expr} {name : String} (h : e.leaves = [.name name]) :
    e = .identifier name := by
  cases e with
  | literal l => simp [leaves] at h
  | identifier name' => simpa [leaves] using h
  | binary op left right =>
      have hleft := List.length_pos_iff.mpr left.leaves_ne_nil
      have hlength := congrArg List.length h
      simp only [leaves, List.length_append, List.length_cons, List.length_nil] at hlength
      omega
  | assign target value => simp [leaves, value.leaves_ne_nil] at h

/-- **Sums that stand for a name** are names between parentheses, if any. -/
theorem Grammar.Sum.identifier_iff {n : Nat} {ts : List Token} {e : Expr}
    (h : Sum (Assignment n) ts e) :
    (∃ name, e = .identifier name) ↔ ∃ pairs, NameIn pairs ts := by
  constructor
  · rintro ⟨name, rfl⟩
    exact h.nameIn fun _ _ => Assignment.nameIn
  · rintro ⟨pairs, hname⟩
    obtain ⟨name, hleaves⟩ := hname.leaves_eq
    have hsame := h.leaves_eq fun _ _ => Assignment.leaves_eq
    exact ⟨name, Expr.eq_identifier_of_leaves (hsame.trans hleaves)⟩

/-! ### Runs in a run -/

/-- A run holds the run of a part in it: it goes through all moments of the part,
and an error of the part ends it. -/
structure Outlasts {α β : Type} (run : Except Error α × Parser) (part : Except Error β × Parser) :
    Prop where
  history : part.2.history <:+ run.2.history
  error : ∀ e, part.1 = .error e → run.1 = .error e

theorem Outlasts.refl {α : Type} (run : Except Error α × Parser) : Outlasts run run :=
  ⟨List.suffix_refl _, fun _ h => h⟩

namespace Parser

/-- The parser has just opened the level of an expression. -/
def BeginsExpression (q : Parser) : Prop :=
  ∃ older, q.history = ⟨.opened .assignmentExpression, q.toCursor⟩ :: older

theorem BeginsExpression.eq_entering {p q : Parser} {rule : Rule} (hq : q.BeginsExpression)
    (h : q.history = (p.entering rule).history) :
    rule = .assignmentExpression ∧ q = p.entering rule := by
  obtain ⟨older, hhistory⟩ := hq
  have hmoment : (⟨.opened .assignmentExpression, q.toCursor⟩ : Moment)
      = ⟨.opened rule, (p.entering rule).toCursor⟩ := by
    rw [hhistory] at h
    exact (List.cons.inj h).1
  obtain ⟨hevent, hcursor⟩ := Moment.mk.inj hmoment
  refine ⟨(Event.opened.inj hevent).symm, ?_⟩
  cases q
  simp only at hcursor h
  rw [hcursor, h]

/-- What is done in the level that a parser has just opened. -/
def level (limit : Nat) (q : Parser) : Except Error Expr × Parser :=
  Parse.assignmentLevel (Parse.assignment (limit - q.depth)) q

/-- Wherever a run from a parser opens the level of an expression, it does all that
is done in the level. -/
def ToldIn {α : Type} (limit : Nat) (p : Parser) (run : Except Error α × Parser) : Prop :=
  ∀ q : Parser, q.BeginsExpression → q.history <:+ run.2.history → ¬q.history <:+ p.history →
    Outlasts run (q.level limit)

variable {α : Type} {limit : Nat} {p : Parser} {run : Except Error α × Parser}

/-- A run that opens no level has nothing to tell. -/
theorem Stays.toldIn (h : p.Stays run.2) : p.ToldIn limit run := by
  obtain ⟨_, new, hhistory, hnew⟩ := h
  rintro q ⟨older, hq⟩ hinside hearlier
  refine absurd ?_ hearlier
  rw [hhistory] at hinside
  clear hhistory hearlier
  induction new with
  | nil => exact hinside
  | cons m new ih =>
      obtain ⟨⟨_, hevent⟩, hnew⟩ := List.forall_mem_cons.mp hnew
      rcases List.suffix_cons_iff.mp hinside with hfirst | hlater
      · rw [hq] at hfirst
        obtain ⟨rfl, _⟩ := List.cons.inj hfirst
        simp [Event.keepsLevels, Event.opens] at hevent
      · exact ih hnew hlater

end Parser

namespace Parse

variable {α β : Type} {limit n : Nat} {p : Parser}

theorem toldIn_bind {rule : Parse α} {next : α → Parse β} (hrule : p.ToldIn limit (rule p))
    (hnext : ∀ a q, rule p = (.ok a, q) →
      q.history <:+ (next a q).2.history ∧ q.ToldIn limit (next a q)) :
    p.ToldIn limit ((rule >>= next) p) := by
  rcases hrun : rule p with ⟨answer, q⟩
  rw [hrun] at hrule
  cases answer with
  | error e =>
      rw [bind_of_error hrun]
      intro r hr hinside hlater
      obtain ⟨hhistory, herror⟩ := hrule r hr hinside hlater
      exact ⟨hhistory, fun e' he' => congrArg Except.error (Except.error.inj (herror e' he'))⟩
  | ok a =>
      rw [bind_of_ok hrun]
      obtain ⟨hgrows, hnext⟩ := hnext a q hrun
      intro r hr hinside hlater
      by_cases hfirst : r.history <:+ q.history
      · -- An error in the first rule would have ended it.
        obtain ⟨hhistory, herror⟩ := hrule r hr hfirst hlater
        exact ⟨hhistory.trans hgrows, fun e he => nomatch herror e he⟩
      · exact hnext r hr hinside hfirst

/-- Doing what is done in the levels is a comparison, where so many levels are
left. -/
def telling (limit n : Nat) : Comparison where
  Holds p _ rule' :=
    p.Carries (rule' p).2 ∧ (p.depth + n = limit → p.ToldIn limit (rule' p))
  congr h _ hrule' := hrule' ▸ h
  pure p a := ⟨carrying.pure p a, fun _ => (Parser.Stays.refl p).toldIn⟩
  note p := ⟨carrying.note p, fun _ => (note_stays rfl).toldIn⟩
  eat p kind rule := ⟨carrying.eat p kind rule, fun _ => eat_stays.toldIn⟩
  fail p rule cause h := ⟨carrying.fail p rule cause h, fun _ => fail_stays.toldIn⟩
  bind hrule hnext := by
    refine ⟨carries_bind hrule.1 fun a q hrun => (hnext a q hrun).1, fun hlimit => ?_⟩
    refine toldIn_bind (hrule.2 hlimit) fun a q hrun => ?_
    have hdepth := hrule.1.depth
    rw [hrun] at hdepth
    exact ⟨(hnext a q hrun).1.grows, (hnext a q hrun).2 (hdepth ▸ hlimit)⟩

/-- A level tells of the levels in it and, if it is that of an expression, of
itself. -/
theorem telling_within {rule : Rule} {body : Parse α}
    (hbody : (telling limit n).Holds (p.entering rule) body body)
    (hself : rule = .assignmentExpression → p.depth + (n + 1) = limit →
      Outlasts (body (p.entering rule)) ((p.entering rule).level limit)) :
    (telling limit (n + 1)).Holds p (within rule body) (within rule body) := by
  refine ⟨hbody.1.nest, fun hlimit q hq hinside hlater => ?_⟩
  have hdepth : (p.entering rule).depth + n = limit := by
    change p.depth + 1 + n = limit
    omega
  rw [within_apply] at hinside ⊢
  have hcloses : ∀ {part : Except Error Expr × Parser}, Outlasts (body (p.entering rule)) part →
      Outlasts ((body (p.entering rule)).1, (body (p.entering rule)).2.leaving rule) part :=
    fun h => ⟨h.history.trans (List.suffix_cons _ _), h.error⟩
  obtain ⟨older, hopening⟩ := id hq
  rcases List.suffix_cons_iff.mp hinside with hclosing | hbefore
  · rw [hopening] at hclosing
    simp at hclosing
  · by_cases hfirst : q.history <:+ (p.entering rule).history
    · rcases List.suffix_cons_iff.mp hfirst with heq | hearlier
      · obtain ⟨hrule, rfl⟩ := hq.eq_entering heq
        exact hcloses (hself hrule hlimit)
      · exact absurd hearlier hlater
    · exact hcloses (hbody.2 hdepth q hq hbefore hfirst)

theorem assignment_telling (n : Nat) (p : Parser) :
    (telling limit n).Holds p (assignment n) (assignment n) := by
  induction n generalizing p with
  | zero => exact ⟨fail_stays.carries, fun _ => fail_stays.toldIn⟩
  | succ n ih =>
      refine telling_within ((telling limit n).assignmentLevel fun q _ => ih q) fun _ hlimit => ?_
      obtain rfl : n = limit - (p.depth + 1) := by omega
      exact .refl _

theorem statement_telling (n : Nat) (p : Parser) :
    (telling limit n).Holds p (statement n) (statement n) := by
  induction n generalizing p with
  | zero =>
      refine (telling limit 0).bind ((telling limit 0).note p) fun _ q _ => ?_
      exact ⟨fail_stays.carries, fun _ => fail_stays.toldIn⟩
  | succ n ih =>
      rw [statement_succ]
      refine (telling limit (n + 1)).bind ((telling limit (n + 1)).note p) fun _ q _ => ?_
      refine telling_within ((telling limit n).statementLevel ?_ fun r _ => ih r) nofun
      exact fun r _ => assignment_telling n r

end Parse

namespace Parser

open Parse

/-- A rule that tells of its levels does so from the front of a source. -/
theorem restart_toldIn {α : Type} {limit : Nat} {rule : Parse α} {events : List Event}
    (hevents : ∀ event ∈ events, event.keepsLevels = true)
    (hrule : ∀ q, (telling limit limit).Holds q rule rule) (source : String) (p : Parser) :
    (ofText source).ToldIn limit ((restart source events >>= fun _ => rule) p) := by
  rw [restart_bind]
  have hstays : (ofText source).Stays (fetch events (ofText source)).2 := fetch_stays hevents
  refine toldIn_bind hstays.toldIn fun _ q hfetch => ?_
  have hdepth : q.depth = 0 := by
    rw [hfetch] at hstays
    exact hstays.depth
  exact ⟨(hrule q).1.grows, (hrule q).2 (by omega)⟩

theorem parse_toldIn (p : Parser) (source : String) :
    (ofText source).ToldIn maxNesting (p.parse source) := by
  refine restart_toldIn (List.forall_mem_singleton.mpr rfl) (fun q => ?_) source p
  refine (telling maxNesting maxNesting).bind ?_ fun result r _ => ?_
  · exact (telling _ _).program (.limited maxNesting) fun r _ => statement_telling maxNesting r
  · have hnote : r.Stays ((do
        note fun _ => .finished result.body.length
        return result : Parse Program) r).2 :=
      show r.Stays (note (fun _ => .finished result.body.length) r).2 from note_stays rfl
    exact ⟨hnote.carries, fun _ => hnote.toldIn⟩

theorem parseExpression_toldIn (p : Parser) (source : String) :
    (ofText source).ToldIn maxNesting (p.parseExpression source) :=
  restart_toldIn (by simp) (fun q => (telling _ _).soleExpression (.limited maxNesting)
    (assignment_telling maxNesting q)) source p

end Parser

/-! ### Targets -/

/-- A run has read a sum, from `q` to `q'`, and an equals sign is read ahead. -/
structure MeetsEquals {α : Type} (run : Except Error α × Parser) (q : Parser) (left : Expr)
    (q' : Parser) (equals : Token) : Prop where
  begins : q.BeginsExpression
  inside : q.history <:+ run.2.history
  sum : Parse.additive (Parse.assignment (maxNesting - q.depth)) q = (.ok left, q')
  ahead : q'.lookahead = some equals
  kind : equals.kind = .assign

/-- The next that a run does from a parser is to use a token. -/
def Takes {α : Type} (run : Except Error α × Parser) (q : Parser) (t : Token) : Prop :=
  ∃ c, ⟨.took t, c⟩ :: q.history <:+ run.2.history

/-- What stands before an equals sign is judged by its tokens. -/
structure TargetChecked {α : Type} (run : Except Error α × Parser) (q : Parser) (ts : List Token)
    (left : Expr) (q' : Parser) (equals : Token) : Prop where
  /-- The tokens of the sum. -/
  reads : Reads q ts q'
  phrase : Grammar.Sum (Grammar.Assignment (maxNesting - q.depth)) ts left
  /-- The assignment is accepted exactly if they are one name. -/
  takes_iff : Takes run q' equals ↔ ∃ name : Token, ts = [name] ∧ name.kind = .identifier
  /-- Then the level goes on to the value, and its text is the target. -/
  accepts : ∀ name : Token, ts = [name] → name.kind = .identifier →
    Outlasts run (q.level maxNesting) ∧
      q.level maxNesting = (do
        let _ ← Parse.eat .assign .assignmentExpression
        let value ← Parse.assignment (maxNesting - q.depth)
        return .assign name.raw value : Parse Expr) q'
  /-- Otherwise the run ends at the equals sign, and the error tells of parentheses
  around a name or else of the tree. -/
  refuses : ¬(∃ name : Token, ts = [name] ∧ name.kind = .identifier) →
    ∃ found, run.1 = .error (.grammar
        ⟨.assignmentExpression, .invalidAssignmentTarget found, equals.position⟩) ∧
      (found = "ParenthesizedExpression" ↔ ∃ pairs, Grammar.NameIn (pairs + 1) ts) ∧
      ((¬∃ pairs, Grammar.NameIn (pairs + 1) ts) → found = left.nodeName ∧
        found ∈ ["BinaryExpression", "AssignmentExpression", "Literal"])

section Targets

open Parse Grammar

variable {α : Type} {run : Except Error α × Parser} {q q' : Parser} {left : Expr}
  {equals : Token} {ts : List Token}

theorem MeetsEquals.kind? (h : MeetsEquals run q left q' equals) : q'.kind? = some .assign := by
  simp [Cursor.kind?, h.ahead, h.kind]

/-- After a sum with an equals sign behind it, a level looks for a target. -/
theorem assignmentLevel_of_equals {inner : Parse Expr}
    (hsum : additive inner q = (.ok left, q')) (hkind : q'.kind? = some .assign) :
    assignmentLevel inner q = (do
      let name ← target (q.kind? == some .identifier) left
      let _ ← eat .assign .assignmentExpression
      let value ← inner
      return .assign name value : Parse Expr) q' := by
  change (additive inner >>= _) q = _
  rw [bind_of_ok hsum]
  change (if q'.kind? == some .assign then _ else _ : Parse Expr) q' = _
  rw [hkind]
  rfl

/-- A token that is read ahead and is expected is used. -/
theorem takes_of_eat {t : Token} {rule : Rule} (hahead : q.lookahead = some t) :
    Takes (eat t.kind rule q) q t := by
  rcases hnext : q.stream.nextToken with ⟨scanned, answer, stream⟩
  cases answer with
  | ok next =>
      rw [eat_of_ok hahead hnext]
      exact ⟨⟨stream, next, q.depth⟩, by simp [Parser.record, Parser.moveTo]⟩
  | error e =>
      rw [eat_of_error hahead hnext]
      exact ⟨⟨stream, none, q.depth⟩, by simp [Parser.record, Parser.moveTo]⟩

/-- A run that has failed at a parser has used no token there. -/
theorem not_takes_of_failed {t : Token} {e : ParseError}
    (h : (q.record [.failed e]).history <:+ run.2.history) : ¬Takes run q t := by
  rintro ⟨c, htook⟩
  have hle := List.suffix_of_suffix_length_le htook h (by simp [Parser.record])
  have heq := hle.eq_of_length (by simp [Parser.record])
  simp [Parser.record] at heq

/-- What one rule has done, the next leaves in the history. -/
theorem history_bind {β γ : Type} {rule : Parse β} {next : β → Parse γ}
    (hnext : ∀ (b : β) (r : Parser), r.Carries (next b r).2) :
    (rule q).2.history <:+ ((rule >>= next) q).2.history := by
  rcases hrun : rule q with ⟨answer, r⟩
  cases answer with
  | ok b => exact bind_of_ok hrun ▸ (hnext b r).grows
  | error e =>
      have hfail : (rule >>= next) q = (.error e, r) := bind_of_error hrun
      exact hfail ▸ List.suffix_refl r.history

namespace MeetsEquals

variable (h : MeetsEquals run q left q' equals) (htold : Outlasts run (q.level maxNesting))
include h htold

/-- A bare name is accepted. -/
theorem accepted {name : String}
    (htarget : target (q.kind? == some .identifier) left = pure name) :
    Takes run q' equals ∧ q.level maxNesting = (do
      let _ ← eat .assign .assignmentExpression
      let value ← assignment (maxNesting - q.depth)
      return .assign name value : Parse Expr) q' := by
  have hlevel : q.level maxNesting = (do
      let _ ← eat .assign .assignmentExpression
      let value ← assignment (maxNesting - q.depth)
      return .assign name value : Parse Expr) q' := by
    refine (assignmentLevel_of_equals h.sum h.kind?).trans ?_
    rw [htarget]
    rfl
  refine ⟨?_, hlevel⟩
  -- The level begins with the equals sign, and the run holds the level.
  obtain ⟨c, htakes⟩ : Takes (eat equals.kind .assignmentExpression q') q' equals :=
    takes_of_eat h.ahead
  rw [h.kind] at htakes
  have hgrows : (eat .assign .assignmentExpression q').2.history
      <:+ (q.level maxNesting).2.history := by
    rw [hlevel]
    refine history_bind fun _ r => carries_bind (assignment_carries _ r) ?_
    exact fun value r' _ => carrying.pure r' (Expr.assign name value)
  exact ⟨c, htakes.trans (hgrows.trans htold.history)⟩

/-- Everything else is refused, and the run ends. -/
theorem refused {found : String}
    (htarget : target (q.kind? == some .identifier) left
      = fail .assignmentExpression fun _ => .invalidAssignmentTarget found) :
    ¬Takes run q' equals ∧ run.1 = .error (.grammar
      ⟨.assignmentExpression, .invalidAssignmentTarget found, equals.position⟩) := by
  have hposition : q'.position = equals.position := by simp [Cursor.position, h.ahead]
  rw [← hposition]
  let e : ParseError := ⟨.assignmentExpression, .invalidAssignmentTarget found, q'.position⟩
  have hlevel : q.level maxNesting = (.error (.grammar e), q'.record [.failed e]) := by
    refine (assignmentLevel_of_equals h.sum h.kind?).trans ?_
    rw [htarget]
    exact bind_of_error rfl
  rw [hlevel] at htold
  exact ⟨not_takes_of_failed htold.history, htold.error _ rfl⟩

/-- A target that is refused is judged rightly, if the error is the right one. -/
theorem checked_of_refused {found : String} (hreads : Reads q ts q')
    (hphrase : Sum (Assignment (maxNesting - q.depth)) ts left)
    (htarget : target (q.kind? == some .identifier) left
      = fail .assignmentExpression fun _ => .invalidAssignmentTarget found)
    (hbare : ¬NameIn 0 ts)
    (hwrapped : found = "ParenthesizedExpression" ↔ ∃ pairs, NameIn (pairs + 1) ts)
    (hnode : (¬∃ pairs, NameIn (pairs + 1) ts) → found = left.nodeName ∧
      found ∈ ["BinaryExpression", "AssignmentExpression", "Literal"]) :
    TargetChecked run q ts left q' equals := by
  obtain ⟨htakes, hrun⟩ := h.refused htold htarget
  rw [nameIn_zero_iff] at hbare
  refine ⟨hreads, hphrase, iff_of_false htakes hbare, fun name hts hkind => ?_, fun _ => ?_⟩
  · exact absurd ⟨name, hts, hkind⟩ hbare
  · exact ⟨found, hrun, hwrapped, hnode⟩

/-- A sum that stands for no name is refused by the name of its node. -/
theorem checked_of_node (hreads : Reads q ts q')
    (hphrase : Sum (Assignment (maxNesting - q.depth)) ts left)
    (hleft : ∀ name, left ≠ .identifier name) : TargetChecked run q ts left q' equals := by
  have hnone : ¬∃ pairs, NameIn pairs ts := fun hname => by
    obtain ⟨name, heq⟩ := hphrase.identifier_iff.mpr hname
    exact hleft name heq
  have hlisted : left.nodeName ∈ ["BinaryExpression", "AssignmentExpression", "Literal"] := by
    cases left with
    | identifier name => exact absurd rfl (hleft name)
    | _ => simp [Expr.nodeName]
  have htarget : target (q.kind? == some .identifier) left
      = fail .assignmentExpression fun _ => .invalidAssignmentTarget left.nodeName := by
    cases left with
    | identifier name => exact absurd rfl (hleft name)
    | _ => rfl
  have hwrapped : ¬∃ pairs, NameIn (pairs + 1) ts := fun ⟨pairs, hname⟩ => hnone ⟨_, hname⟩
  refine h.checked_of_refused htold hreads hphrase htarget (fun hname => hnone ⟨0, hname⟩)
    (iff_of_false (fun heq => ?_) hwrapped) fun _ => ⟨rfl, hlisted⟩
  simp [heq] at hlisted

/-- A sum that stands for a name is accepted without parentheses, and refused with
them.  Which it is, the first token tells. -/
theorem checked_of_name {name : String} (hreads : Reads q ts q')
    (hphrase : Sum (Assignment (maxNesting - q.depth)) ts left) (hleft : left = .identifier name) :
    TargetChecked run q ts left q' equals := by
  subst hleft
  obtain ⟨pairs, hname⟩ := hphrase.identifier_iff.mp ⟨name, rfl⟩
  have hfirst : (q.kind? == some .identifier) = startsWith (· == .identifier) ts := by
    have hne := ne_nil_of_startsWith hphrase.begins
    rw [hreads.kind? hne]
    cases ts <;> simp at hne ⊢
  by_cases hpairs : pairs = 0
  · have hbare := hname.begins_iff.mpr hpairs
    obtain ⟨t, rfl, hkind, rfl⟩ := sum_eq_singleton hphrase hbare
    have htarget : target (q.kind? == some .identifier) (.identifier t.raw) = pure t.raw := by
      rw [hfirst, hbare]
      rfl
    obtain ⟨htakes, hlevel⟩ := h.accepted htold htarget
    refine ⟨hreads, hphrase, iff_of_true htakes ⟨t, rfl, hkind⟩, ?_, ?_⟩
    · rintro name heq -
      obtain rfl := List.singleton_inj.mp heq
      exact ⟨htold, hlevel⟩
    · exact fun hnone => absurd ⟨t, rfl, hkind⟩ hnone
  · have hbare : startsWith (· == .identifier) ts = false :=
      Bool.eq_false_iff.mpr fun hbare => hpairs (hname.begins_iff.mp hbare)
    have htarget : target (q.kind? == some .identifier) (.identifier name)
        = fail .assignmentExpression
          fun _ => .invalidAssignmentTarget "ParenthesizedExpression" := by
      rw [hfirst, hbare]
      rfl
    have hwrapped : ∃ pairs, NameIn (pairs + 1) ts := ⟨pairs - 1, by
      rwa [Nat.sub_add_cancel (Nat.pos_of_ne_zero hpairs)]⟩
    refine h.checked_of_refused htold hreads hphrase htarget (fun hzero => ?_)
      (iff_of_true rfl hwrapped) fun hnone => absurd hwrapped hnone
    exact Bool.false_ne_true (hbare.symm.trans (hzero.begins_iff.mpr rfl))

theorem targetChecked : ∃ ts, TargetChecked run q ts left q' equals := by
  obtain ⟨ts, hreads, hphrase⟩ := (additive_reads (assignment_reads _) q).of_ok h.sum
  by_cases hname : ∃ name, left = .identifier name
  · obtain ⟨name, hleft⟩ := hname
    exact ⟨ts, h.checked_of_name htold hreads hphrase hleft⟩
  · exact ⟨ts, h.checked_of_node htold hreads hphrase fun name hleft => hname ⟨name, hleft⟩⟩

end MeetsEquals

/-- A parser that has begun an expression has done something. -/
theorem Parser.BeginsExpression.later {source : String} (h : q.BeginsExpression) :
    ¬q.history <:+ (Parser.ofText source).history := by
  obtain ⟨older, hhistory⟩ := h
  rw [hhistory]
  exact fun hnil => nomatch List.suffix_nil.mp hnil

end Targets

/-- **Targets are judged rightly.**  Wherever reading a source, as a program or as
a single expression, has read a sum and comes to an equals sign, the assignment is
accepted exactly if the sum is one token, a name, which is then the target; and
otherwise reading the source ends with an error at the equals sign, which tells of a
name in parentheses exactly if the sum is one, and else of the node of its tree. -/
theorem target_checked (p : Parser) (source : String) (q : Parser) (left : Expr) (q' : Parser)
    (equals : Token) :
    (MeetsEquals (p.parse source) q left q' equals →
      ∃ ts, TargetChecked (p.parse source) q ts left q' equals) ∧
    (MeetsEquals (p.parseExpression source) q left q' equals →
      ∃ ts, TargetChecked (p.parseExpression source) q ts left q' equals) := by
  constructor
  · intro h
    exact h.targetChecked (p.parse_toldIn source q h.begins h.inside h.begins.later)
  · intro h
    exact h.targetChecked (p.parseExpression_toldIn source q h.begins h.inside h.begins.later)

/-- A name is assigned to, and a name in two pairs of parentheses is refused. -/
theorem target_checked_parentheses :
    let q := (((Parse.fetch [.began 7] (Parser.ofText "aa = bb")).2.record
      [.statement ⟨1, 1⟩]).entering .statement).entering .assignmentExpression
    let run := Parse.additive (Parse.assignment (maxNesting - q.depth)) q
    let equals : Token := ⟨.operator, .assign, .text "=", "=", 3, 4, ⟨1, 4⟩⟩
    let r := (Parse.fetch [] (Parser.ofText "((aa)) = bb")).2.entering .assignmentExpression
    let run' := Parse.additive (Parse.assignment (maxNesting - r.depth)) r
    let equals' : Token := ⟨.operator, .assign, .text "=", "=", 7, 8, ⟨1, 8⟩⟩
    (MeetsEquals (Parser.unset.parse "aa = bb") q (.identifier "aa") run.2 equals ∧
      ∃ ts, TargetChecked (Parser.unset.parse "aa = bb") q ts (.identifier "aa") run.2 equals) ∧
    (MeetsEquals (Parser.unset.parseExpression "((aa)) = bb") r (.identifier "aa") run'.2
        equals' ∧
      ∃ ts, TargetChecked (Parser.unset.parseExpression "((aa)) = bb") r ts (.identifier "aa")
        run'.2 equals') := by
  intro q run equals r run' equals'
  have h : MeetsEquals (Parser.unset.parse "aa = bb") q (.identifier "aa") run.2 equals :=
    ⟨⟨_, rfl⟩, by decide +kernel, Prod.ext (by cbv) rfl, by decide +kernel, rfl⟩
  have h' : MeetsEquals (Parser.unset.parseExpression "((aa)) = bb") r (.identifier "aa") run'.2
      equals' := ⟨⟨_, rfl⟩, by decide +kernel, Prod.ext (by cbv) rfl, by decide +kernel, rfl⟩
  exact ⟨⟨h, (target_checked _ _ _ _ _ _).1 h⟩, h', (target_checked _ _ _ _ _ _).2 h'⟩

end TildeLang
