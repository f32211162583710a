import TildeLang.Proofs.Reading

/-!
# Following a derivation

Suppose that the tokens to come agree with a derivation as far as one can see.
Then a rule follows the derivation as far as one can see: it answers with the
tree of the derivation, or it uses every token in sight.

How far one can see is the **horizon**.  A horizon of `some k` hides the last
`k` tokens to come, so that nothing is assumed of them; the horizon `none`
hides nothing, and shows the end of the input as well.  A cursor is **beyond**
the horizon when all tokens in sight have been used.

With the horizon `none` this is completeness: what the grammar derives, the
rules accept.  With a nearer horizon it says that a rule which fails does so
only at a token that no derivation with the same beginning could have.

* `Leads.follow` — one rule after another;
* `collectWhile_follows` — a loop follows a sequence;
* `leftGrouped_follows` — operands are grouped to the left.
-/

namespace TildeLang

open Grammar

namespace Cursor

/-- All tokens in sight have been used. -/
def Beyond (horizon : Option Nat) (c : Cursor) : Prop :=
  ∃ k ∈ horizon, c.upcoming.length ≤ k

/-- The tokens to come are the given ones, as far as one can see, and one can
see at least one token or the end of the input. -/
def Shows (horizon : Option Nat) (c : Cursor) (ts : List Token) : Prop :=
  match horizon with
  | none => c.upcoming = ts ∧ c.fault? = none
  | some k => ∃ seen unseen more, seen ≠ [] ∧ unseen.length = k ∧
      c.upcoming = seen ++ unseen ∧ ts = seen ++ more

variable {horizon : Option Nat} {c : Cursor} {ts : List Token}

theorem Shows.lookahead (h : c.Shows horizon ts) : c.lookahead = ts.head? := by
  rw [← head?_upcoming]
  cases horizon with
  | none => rw [h.1]
  | some k =>
      obtain ⟨seen, unseen, more, hne, _, hcoming, rfl⟩ := h
      rw [hcoming]
      cases seen with
      | nil => exact absurd rfl hne
      | cons t seen => rfl

theorem Shows.kind? (h : c.Shows horizon ts) : c.kind? = ts.head?.map Token.kind := by
  rw [Cursor.kind?, h.lookahead]

/-- Looking ahead sees whether the tokens begin with an accepted one. -/
theorem Shows.any_kind? (h : c.Shows horizon ts) (accepts : Kind → Bool) :
    c.kind?.any accepts = startsWith accepts ts := by
  rw [h.kind?, startsWith]

theorem Shows.kind?_ne {accepts : Kind → Bool} {kind : Kind} (h : c.Shows horizon ts)
    (hno : startsWith accepts ts = false) (hkind : accepts kind = true) :
    c.kind? ≠ some kind := by
  intro hahead
  have hany := h.any_kind? accepts
  simp [hahead, hno, hkind] at hany

/-- Past one token, the rest is in sight or the horizon is reached. -/
theorem Shows.step {c' : Cursor} {t : Token} (h : c.Shows horizon (t :: ts))
    (hcoming : c.upcoming = t :: c'.upcoming) (hfault : c'.fault? = c.fault?) :
    c'.Shows horizon ts ∨ c'.Beyond horizon := by
  cases horizon with
  | none =>
      obtain ⟨hsame, hclean⟩ := h
      rw [hcoming] at hsame
      exact Or.inl ⟨(List.cons.inj hsame).2, hfault.trans hclean⟩
  | some k =>
      obtain ⟨seen, unseen, more, hne, hlen, hsplit, hts⟩ := h
      cases seen with
      | nil => exact absurd rfl hne
      | cons t' seen =>
          rw [hcoming] at hsplit
          have hrest : c'.upcoming = seen ++ unseen := (List.cons.inj hsplit).2
          have hts : ts = seen ++ more := (List.cons.inj hts).2
          by_cases hend : seen = []
          · subst hend
            exact Or.inr ⟨k, rfl, by simp [hrest, hlen]⟩
          · exact Or.inl ⟨seen, unseen, more, hend, hlen, hrest, hts⟩

end Cursor

/-- The outcome of following a derivation of a tree up to some tokens. -/
def Outcome.following {α : Type} (horizon : Option Nat) (a : α) (after : List Token) :
    Outcome α where
  answers b p' := b = a ∧ p'.Shows horizon after ∨ p'.Beyond horizon
  fails _ p' := p'.Beyond horizon
  breaks _ p' := p'.Beyond horizon

namespace Parse

variable {α β : Type} {p : Parser} {horizon : Option Nat}

/-- A rule that never adds to the tokens to come, whatever its outcome. -/
def Orderly (rule : Parse α) : Prop :=
  ∀ p, (rule p).2.upcoming.length ≤ p.upcoming.length

namespace Orderly

/-- A rule that reads phrases is orderly. -/
theorem of_reads {rule : Parse α} {n : Nat} {phrases : Nat → Phrases α}
    (h : ∀ p, rule.Leads p (.reading p n phrases)) : Orderly rule := by
  intro p
  have hreads : ∀ {ts q}, Reads p ts q → q.upcoming.length ≤ p.upcoming.length := by
    intro ts q hreads
    have := congrArg List.length hreads.upcoming
    rw [List.length_append] at this
    omega
  rcases hrun : rule p with ⟨answer, p'⟩
  cases answer with
  | ok a =>
      obtain ⟨ts, h, _⟩ := (h p).of_ok hrun
      exact hreads h
  | error e =>
      cases e with
      | grammar e =>
          obtain ⟨ts, h, _⟩ := (h p).of_grammar hrun
          exact hreads h
      | lexical e =>
          obtain ⟨_, hend⟩ := (h p).of_lexical hrun
          simp [hend]

theorem pure (a : α) : Orderly (Pure.pure a : Parse α) := fun _ => Nat.le_refl _

theorem bind {rule : Parse α} {next : α → Parse β} (hrule : Orderly rule)
    (hnext : ∀ a, Orderly (next a)) : Orderly (rule >>= next) := by
  intro p
  change (Parse.bind rule next p).2.upcoming.length ≤ _
  have hle := hrule p
  unfold Parse.bind
  rcases hrun : rule p with ⟨answer, p'⟩
  rw [hrun] at hle
  cases answer with
  | ok a => exact Nat.le_trans (hnext a p') hle
  | error e => exact hle

theorem peek_bind {next : Option Kind → Parse β} (hnext : ∀ kind, Orderly (next kind)) :
    Orderly (peek >>= next) := fun p => hnext p.kind? p

theorem eat {kind : Kind} {rule : Rule} : Orderly (Parse.eat kind rule) :=
  of_reads (n := 0) fun _ => eat_reads

theorem ite {condition : Prop} [Decidable condition] {yes no : Parse α}
    (hyes : Orderly yes) (hno : Orderly no) : Orderly (if condition then yes else no) := by
  split
  · exact hyes
  · exact hno

theorem collectUpTo {accepts : Kind → Bool} {rule : Parse α} (hrule : Orderly rule)
    (count : Nat) : Orderly (Parse.collectUpTo accepts rule count) := by
  induction count with
  | zero => exact .pure []
  | succ count ih =>
      exact .peek_bind fun _ => .ite (.bind hrule fun _ => .bind ih fun _ => .pure _) (.pure [])

theorem collectWhile {accepts : Kind → Bool} {rule : Parse α} (hrule : Orderly rule) :
    Orderly (Parse.collectWhile accepts rule) := fun p => collectUpTo hrule p.size p

theorem operandsUpTo {rule : Rule} {op? : Kind → Option BinaryOp} {operand : Parse Expr}
    (hoperand : Orderly operand) (count : Nat) (left : Expr) :
    Orderly (Parse.operandsUpTo rule op? operand count left) := by
  induction count generalizing left with
  | zero => exact .pure left
  | succ count ih =>
      refine .peek_bind fun kind => ?_
      cases kind.bind op? with
      | none => exact .pure left
      | some op => exact .bind .eat fun _ => .bind hoperand fun _ => ih _

theorem operands {rule : Rule} {op? : Kind → Option BinaryOp} {operand : Parse Expr}
    (hoperand : Orderly operand) (left : Expr) :
    Orderly (Parse.operands rule op? operand left) := fun p =>
  operandsUpTo hoperand p.size left p

end Orderly

/-- Beyond the horizon, an orderly rule stays there. -/
theorem Orderly.leads_beyond {rule : Parse α} (hrule : Orderly rule) (h : p.Beyond horizon)
    (a : α) (after : List Token) : rule.Leads p (.following horizon a after) := by
  obtain ⟨k, hk, hle⟩ := h
  have hrun := hrule p
  refine .intro ?_ ?_ ?_
  · intro b p' heq
    rw [heq] at hrun
    exact Or.inr ⟨k, hk, Nat.le_trans hrun hle⟩
  · intro e p' heq
    rw [heq] at hrun
    exact ⟨k, hk, Nat.le_trans hrun hle⟩
  · intro e p' heq
    rw [heq] at hrun
    exact ⟨k, hk, Nat.le_trans hrun hle⟩

/-- **One rule after another.**  Where the first has followed its part of a
derivation, the second has to follow the rest. -/
theorem Leads.follow {first : Parse α} {next : α → Parse β} {a : α} {b : β}
    {middle after : List Token}
    (hfirst : first.Leads p (.following horizon a middle))
    (hnext : ∀ p', p'.Shows horizon middle → (next a).Leads p' (.following horizon b after))
    (horderly : ∀ a, Orderly (next a)) :
    (first >>= next).Leads p (.following horizon b after) := by
  rw [leads_bind]
  refine hfirst.imp ?_ (fun _ _ h => h) (fun _ _ h => h)
  intro a' p' hfollowed
  rcases hfollowed with ⟨rfl, hshows⟩ | hbeyond
  · exact hnext p' hshows
  · exact (horderly a').leads_beyond hbeyond b after

/-- A rule that answers at once has followed a derivation to where it is. -/
theorem leads_pure_following {a : α} {after : List Token} (h : p.Shows horizon after) :
    (pure a : Parse α).Leads p (.following horizon a after) :=
  Or.inl ⟨rfl, h⟩

/-- Using a token that is in sight. -/
theorem eat_follows {kind : Kind} {rule : Rule} {t : Token} {after : List Token}
    (hshows : p.Shows horizon (t :: after)) (hkind : t.kind = kind) :
    (eat kind rule).Leads p (.following horizon t after) := by
  have hahead : p.lookahead = some t := hshows.lookahead
  apply leads_eat
  · intro t' p' hreads _
    obtain rfl : t = t' := Option.some.inj (hahead.symm.trans hreads.lookahead)
    rcases hshows.step hreads.upcoming hreads.fault? with hshows | hbeyond
    · exact Or.inl ⟨rfl, hshows⟩
    · exact Or.inr hbeyond
  · intro hno
    exact absurd (by simp [Cursor.kind?, hahead, hkind]) hno
  · intro e p' hfault hend
    cases horizon with
    | none => simp [hshows.2] at hfault
    | some k => exact ⟨k, rfl, by simp [hend]⟩

/-- **Sequences.**  A loop follows a sequence of phrases up to a token that is
not accepted, where `ends` says what may come right after a phrase. -/
theorem collectWhile_follows {accepts : Kind → Bool} {rule : Parse α} {item : Phrases α}
    (ends : α → List Token → Prop)
    (hshrinks : ∀ p a p', rule p = (.ok a, p') → p'.size < p.size)
    (horderly : Orderly rule)
    (hrule : ∀ p ts a after, item ts a → ends a after → p.Shows horizon (ts ++ after) →
      rule.Leads p (.following horizon a after))
    (haccepts : ∀ ts a, item ts a → startsWith accepts ts = true)
    (hends : ∀ a ts b us, item ts b → ends a (ts ++ us))
    {ts after : List Token} {as : List α} (h : Sequence item ts as)
    (hstop : startsWith accepts after = false) (hlast : ∀ a, ends a after)
    (hshows : p.Shows horizon (ts ++ after)) :
    (collectWhile accepts rule).Leads p (.following horizon as after) := by
  induction h generalizing p with
  | nil =>
      have hno : ¬p.kind?.any accepts = true := by simp [hshows.any_kind?, hstop]
      refine .congr (collectWhile_eq hshrinks) ?_
      rw [if_neg hno]
      exact leads_pure_following hshows
  | @cons ts us a as head tail ih =>
      rw [List.append_assoc] at hshows
      have hyes : p.kind?.any accepts = true := by
        rw [hshows.any_kind?]
        exact startsWith_append (haccepts ts a head) _
      have hafter : ends a (us ++ after) := by
        cases tail with
        | nil => exact hlast a
        | cons next _ =>
            rw [List.append_assoc]
            exact hends a _ _ _ next
      refine .congr (collectWhile_eq hshrinks) ?_
      rw [if_pos hyes]
      refine (hrule p ts a _ head hafter hshows).follow ?_ ?_
      · intro p' hshows'
        refine (ih hshows').follow (fun q hq => leads_pure_following hq) ?_
        exact fun _ => .pure _
      · exact fun _ => .bind (.collectWhile horderly) fun _ => .pure _

section Grouped

variable {rule : Rule} {op? : Kind → Option BinaryOp} {ops : List BinaryOp}
  {operand : Parse Expr} {item : Phrases Expr} (ends : List Token → Prop)

/-- A rule that groups to the left, run on operands that are already grouped,
gets to where its loop has them as its left side. -/
private theorem leftGrouped_reaches
    (hop? : ∀ kind op, op? kind = some op ↔ op ∈ ops ∧ kind = op.kind)
    (hkeeps : ∀ p a p', operand p = (.ok a, p') → p'.size ≤ p.size)
    (horderly : Orderly operand)
    (hoperand : ∀ p ts e after, item ts e → ends after → p.Shows horizon (ts ++ after) →
      operand.Leads p (.following horizon e after))
    (hsign : ∀ sign us op, op ∈ ops → sign.kind = op.kind → ends (sign :: us))
    {ts : List Token} {e : Expr} (h : Grouped ops item ts e)
    {rest : List Token} (hrest : ends rest) (hshows : p.Shows horizon (ts ++ rest))
    {a : Expr} {after : List Token}
    (hloop : ∀ p', p'.Shows horizon rest →
      (operands rule op? operand e).Leads p' (.following horizon a after)) :
    (leftGrouped rule op? operand).Leads p (.following horizon a after) := by
  induction h generalizing p rest with
  | single only =>
      rw [leftGrouped_eq]
      exact (hoperand p _ _ rest only hrest hshows).follow hloop fun _ => .operands horderly _
  | @apply ts us sign op left right first hop hkind last ih =>
      rw [List.append_assoc] at hshows
      refine ih (hsign sign _ op hop hkind) hshows ?_
      intro p' hshows'
      have hahead : p'.kind?.bind op? = some op := by
        rw [hshows'.kind?]
        exact (hop? sign.kind op).mpr ⟨hop, hkind⟩
      refine .congr (operands_eq hkeeps left) ?_
      rw [hahead]
      refine (eat_follows hshows' hkind).follow ?_ ?_
      · intro q hq
        refine (hoperand q us right rest last hrest hq).follow hloop ?_
        exact fun _ => .operands horderly _
      · exact fun _ => .bind horderly fun _ => .operands horderly _

/-- **Grouping to the left.**  Operands joined by operators are followed up to
a token that is no such operator, where `ends` says what may come right after
an operand. -/
theorem leftGrouped_follows
    (hop? : ∀ kind op, op? kind = some op ↔ op ∈ ops ∧ kind = op.kind)
    (hkeeps : ∀ p a p', operand p = (.ok a, p') → p'.size ≤ p.size)
    (horderly : Orderly operand)
    (hoperand : ∀ p ts e after, item ts e → ends after → p.Shows horizon (ts ++ after) →
      operand.Leads p (.following horizon e after))
    (hsign : ∀ sign us op, op ∈ ops → sign.kind = op.kind → ends (sign :: us))
    {ts after : List Token} {e : Expr} (h : Grouped ops item ts e) (hends : ends after)
    (hstop : startsWith (fun kind => (op? kind).isSome) after = false)
    (hshows : p.Shows horizon (ts ++ after)) :
    (leftGrouped rule op? operand).Leads p (.following horizon e after) := by
  refine leftGrouped_reaches ends hop? hkeeps horderly hoperand hsign h hends hshows ?_
  intro p' hshows'
  have hahead : p'.kind?.bind op? = none := by
    have hno := hshows'.any_kind? fun kind => (op? kind).isSome
    rw [hstop] at hno
    cases hkind : p'.kind? with
    | none => rfl
    | some kind => simpa [hkind] using hno
  refine .congr (operands_eq hkeeps e) ?_
  rw [hahead]
  exact leads_pure_following hshows'

end Grouped

end Parse

end TildeLang
