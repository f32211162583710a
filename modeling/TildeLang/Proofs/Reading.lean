import TildeLang.Proofs.Grammar
import TildeLang.Proofs.Outcome

/-!
# Reading phrases

A rule **reads** a set of phrases when its runs end in one of these ways:

* it answers, and the tokens that it has used are a phrase that stands for the
  answer;
* it fails, and the tokens that it has used are the beginning of a phrase,
  unless too many levels were open;
* it breaks off at the lexical error that ends the tokens to come.

Phrases are bounded by a number of levels.  An answer keeps within the bound
of the rule; what is begun by a rule that fails can be completed within some
larger bound.

* `Leads.seq` — one rule after another reads what is left after the first;
* `collectWhile_reads` — a loop reads a sequence;
* `operands_reads` — operands are grouped to the left.
-/

namespace TildeLang

open Grammar

/-- Whether the cause of an error is that too many levels are open. -/
def ParseCause.isNesting : ParseCause → Bool
  | nestingTooDeep _ => true
  | _ => false

/-- The cause of an error names the kind of the token at which it arose, and
`none` at the end of the input.  Only an equals sign can follow a target of
assignment. -/
def ParseCause.Names : ParseCause → Option Kind → Prop
  | unexpectedToken _ found, kind => found = kind
  | unexpectedStatement found, kind => found = kind
  | unexpectedLiteral found, kind => found = kind
  | unexpectedPrimary found, kind => found = kind
  | invalidAssignmentTarget _, kind => kind = some .assign
  | trailingInput found, kind => found = kind
  | nestingTooDeep _, _ => True

/-- An error tells where a cursor stands and which token is read ahead. -/
structure ParseError.Reports (e : ParseError) (c : Cursor) : Prop where
  position : e.position = c.position
  names : e.cause.Names c.kind?

/-- The tokens are the beginning of a phrase, within a bound on the levels
that is at least `n`. -/
def Viable {α : Type} (phrases : Nat → Phrases α) (n : Nat) (ts : List Token) : Prop :=
  ∃ m more a, n ≤ m ∧ phrases m (ts ++ more) a

/-- A phrase is the beginning of itself. -/
theorem Viable.of_phrase {α : Type} {phrases : Nat → Phrases α} {n m : Nat}
    {ts : List Token} {a : α} (hm : n ≤ m) (h : phrases m ts a) : Viable phrases n ts :=
  ⟨m, [], a, hm, by simpa using h⟩

/-- The outcome of reading a set of phrases. -/
def Outcome.reading {α : Type} (p : Parser) (n : Nat) (phrases : Nat → Phrases α) :
    Outcome α where
  answers a p' := ∃ ts, Reads p ts p' ∧ phrases n ts a
  fails e p' := ∃ ts, Reads p ts p' ∧
    (e.cause.isNesting = true ∨ e.Reports p'.toCursor ∧ Viable phrases n ts)
  breaks e p' := p.fault? = some e ∧ p'.upcoming = []

namespace Parse

variable {α β : Type} {p : Parser} {n : Nat}

/-- Reading may be claimed of a larger set of phrases. -/
theorem Leads.widen {rule : Parse α} {phrases phrases' : Nat → Phrases α}
    (h : rule.Leads p (.reading p n phrases))
    (hle : ∀ m ts a, n ≤ m → phrases m ts a → phrases' m ts a) :
    rule.Leads p (.reading p n phrases') := by
  refine h.imp ?_ ?_ fun _ _ hbreaks => hbreaks
  · intro a p' hanswer
    obtain ⟨ts, hreads, hphrase⟩ := hanswer
    exact ⟨ts, hreads, hle n ts a (Nat.le_refl n) hphrase⟩
  · intro e p' hfailure
    obtain ⟨ts, hreads, hnesting | ⟨hreports, m, more, a, hm, hphrase⟩⟩ := hfailure
    · exact ⟨ts, hreads, Or.inl hnesting⟩
    · exact ⟨ts, hreads, Or.inr ⟨hreports, m, more, a, hm, hle m _ a hm hphrase⟩⟩

/-- **One rule after another.**  Where the first has read some tokens, the
second has to read what is left of the phrases after them; and what the first
reads must be the beginning of a phrase. -/
theorem Leads.seq {first : Parse α} {next : α → Parse β} {head : Nat → Phrases α}
    {phrases : Nat → Phrases β}
    (hfirst : first.Leads p (.reading p n head))
    (hbegins : ∀ m ts a, n ≤ m → head m ts a → Viable phrases n ts)
    (hnext : ∀ ts a p', first p = (.ok a, p') → Reads p ts p' → head n ts a →
      (next a).Leads p' (.reading p' n fun m us => phrases m (ts ++ us))) :
    (first >>= next).Leads p (.reading p n phrases) := by
  rw [leads_bind]
  refine .intro ?_ ?_ ?_
  · intro a p' hrun
    obtain ⟨ts, hreads, hhead⟩ := hfirst.of_ok hrun
    refine (hnext ts a p' hrun hreads hhead).imp ?_ ?_ ?_
    · intro b p'' hanswer
      obtain ⟨us, hreads', hphrase⟩ := hanswer
      exact ⟨ts ++ us, hreads.append hreads', hphrase⟩
    · intro e p'' hfailure
      obtain ⟨us, hreads', hnesting | ⟨hreports, m, more, b, hm, hphrase⟩⟩ := hfailure
      · exact ⟨ts ++ us, hreads.append hreads', Or.inl hnesting⟩
      · refine ⟨ts ++ us, hreads.append hreads', Or.inr ⟨hreports, m, more, b, hm, ?_⟩⟩
        rwa [List.append_assoc]
    · intro e p'' hbreaks
      obtain ⟨hfault, hend⟩ := hbreaks
      exact ⟨hreads.fault? ▸ hfault, hend⟩
  · intro e p' hrun
    obtain ⟨ts, hreads, hnesting | ⟨hreports, m, more, a, hm, hhead⟩⟩ := hfirst.of_grammar hrun
    · exact ⟨ts, hreads, Or.inl hnesting⟩
    · obtain ⟨m', more', b, hm', hphrase⟩ := hbegins m _ a hm hhead
      refine ⟨ts, hreads, Or.inr ⟨hreports, m', more ++ more', b, hm', ?_⟩⟩
      rwa [List.append_assoc] at hphrase
  · intro e p' hrun
    exact hfirst.of_lexical hrun

/-- A rule that answers at once reads the empty phrase. -/
theorem leads_pure_reading {a : α} {phrases : Nat → Phrases α} (h : phrases n [] a) :
    (pure a : Parse α).Leads p (.reading p n phrases) :=
  ⟨[], .stay p, h⟩

/-- A rule may give up where some phrase could still begin. -/
theorem leads_fail_reading {rule : Rule} {cause : Cursor → ParseCause}
    {phrases : Nat → Phrases α} (hnames : (cause p.toCursor).Names p.kind?)
    (hviable : Viable phrases n []) :
    (fail rule cause : Parse α).Leads p (.reading p n phrases) :=
  ⟨[], .note p _, Or.inr ⟨⟨rfl, hnames⟩, hviable⟩⟩

theorem leads_tooDeep {rule : Rule} {phrases : Nat → Phrases α} :
    (tooDeep rule : Parse α).Leads p (.reading p n phrases) :=
  ⟨[], .note p _, Or.inl rfl⟩

/-- A rule that is run inside a level reads the phrases of the level below. -/
theorem leads_within_reading {rule : Rule} {body : Parse α} {phrases : Nat → Phrases α}
    (h : body.Leads (p.entering rule)
      (.reading (p.entering rule) n fun m => phrases (m + 1))) :
    (within rule body).Leads p (.reading p (n + 1) phrases) := by
  rw [leads_within]
  refine h.imp ?_ ?_ ?_
  · intro a p' hanswer
    obtain ⟨ts, hreads, hphrase⟩ := hanswer
    exact ⟨ts, hreads.nest, hphrase⟩
  · intro e p' hfailure
    obtain ⟨ts, hreads, hnesting | ⟨hreports, m, more, a, hm, hphrase⟩⟩ := hfailure
    · exact ⟨ts, hreads.nest, Or.inl hnesting⟩
    · have hm' : n + 1 ≤ m + 1 := Nat.succ_le_succ hm
      exact ⟨ts, hreads.nest, Or.inr ⟨⟨hreports.position, hreports.names⟩,
        m + 1, more, a, hm', hphrase⟩⟩
  · intro e p' hbreaks
    exact hbreaks

/-- Any event may be noted before a phrase is read. -/
theorem leads_note_reading {event : Cursor → Event} {rule : Parse α}
    {phrases : Nat → Phrases α}
    (h : rule.Leads (p.record [event p.toCursor])
      (.reading (p.record [event p.toCursor]) n phrases)) :
    (note event >>= fun _ => rule).Leads p (.reading p n phrases) := by
  rw [leads_note_bind]
  have hnote : Reads p [] (p.record [event p.toCursor]) := .note p _
  refine h.imp ?_ ?_ ?_
  · intro a p' hanswer
    obtain ⟨ts, hreads, hphrase⟩ := hanswer
    exact ⟨ts, hnote.append hreads, hphrase⟩
  · intro e p' hfailure
    obtain ⟨ts, hreads, hfails⟩ := hfailure
    exact ⟨ts, hnote.append hreads, hfails⟩
  · intro e p' hbreaks
    exact hbreaks

/-- A rule that reads phrases never makes its parser larger. -/
theorem size_le_of_reads {rule : Parse α} {phrases : Nat → Phrases α}
    (h : rule.Leads p (.reading p n phrases)) {a : α} {p' : Parser}
    (hrun : rule p = (.ok a, p')) : p'.size ≤ p.size := by
  obtain ⟨ts, hreads, _⟩ := h.of_ok hrun
  have := hreads.size
  omega

/-- A rule that reads phrases that are not empty makes its parser smaller. -/
theorem size_lt_of_reads {rule : Parse α} {phrases : Nat → Phrases α}
    (h : rule.Leads p (.reading p n phrases)) (hne : ∀ ts a, phrases n ts a → ts ≠ [])
    {a : α} {p' : Parser} (hrun : rule p = (.ok a, p')) : p'.size < p.size := by
  obtain ⟨ts, hreads, hphrase⟩ := h.of_ok hrun
  have hsize := hreads.size
  have hpos : 0 < ts.length := List.length_pos_iff.mpr (hne ts a hphrase)
  omega

/-- **Sequences.**  A loop whose rule reads phrases that are not empty reads a
sequence of them. -/
theorem collectWhile_reads {accepts : Kind → Bool} {rule : Parse α} {item : Nat → Phrases α}
    (hrule : ∀ p, rule.Leads p (.reading p n item))
    (hne : ∀ ts a, item n ts a → ts ≠ [])
    (hmono : ∀ m ts a, n ≤ m → item n ts a → item m ts a) (p : Parser) :
    (collectWhile accepts rule).Leads p (.reading p n fun m => Sequence (item m)) := by
  -- Every round makes the parser smaller, so the induction is on its size.
  generalize hsize : p.size = size
  induction size using Nat.strongRecOn generalizing p with
  | ind size ih =>
      have hshrinks : ∀ p a p', rule p = (.ok a, p') → p'.size < p.size :=
        fun p a p' => size_lt_of_reads (hrule p) hne
      refine Leads.congr (collectWhile_eq hshrinks) ?_
      by_cases haccepts : p.kind?.any accepts = true
      · rw [if_pos haccepts]
        refine (hrule p).seq ?_ ?_
        · intro m ts a hm hitem
          exact ⟨m, [], [a], hm, .cons hitem .nil⟩
        intro ts a p' hrun hreads hitem
        have hlt := hshrinks p a p' hrun
        refine (ih p'.size (by omega) p' rfl).seq ?_ ?_
        · intro m us as hm htail
          exact .of_phrase hm (.cons (hmono m ts a hm hitem) htail)
        intro us as p'' _ _ htail
        exact leads_pure_reading (by simpa using .cons hitem htail)
      · rw [if_neg haccepts]
        exact leads_pure_reading .nil

/-- A loop ends only where the token read ahead is not accepted. -/
theorem collectWhile_stops {accepts : Kind → Bool} {rule : Parse α}
    (hrule : ∀ p a p', rule p = (.ok a, p') → p'.size < p.size) (p : Parser) :
    (collectWhile accepts rule).Leads p
      (.answering fun _ p' => p'.kind?.any accepts = false) := by
  generalize hsize : p.size = size
  induction size using Nat.strongRecOn generalizing p with
  | ind size ih =>
      refine Leads.congr (collectWhile_eq hrule) ?_
      by_cases haccepts : p.kind?.any accepts = true
      · rw [if_pos haccepts]
        refine answering_bind ?_
        intro a p' hrun
        have hlt := hrule p a p' hrun
        rw [leads_bind]
        exact ih p'.size (by omega) p' rfl
      · rw [if_neg haccepts]
        exact Bool.eq_false_iff.mpr haccepts

/-- One token of a kind. -/
def Word (kind : Kind) : Phrases Token := fun ts t => ts = [t] ∧ t.kind = kind

theorem eat_reads {kind : Kind} {rule : Rule} :
    (eat kind rule).Leads p (.reading p n fun _ => Word kind) := by
  apply leads_eat
  · intro t p' hreads hkind
    exact ⟨[t], hreads, rfl, hkind⟩
  · intro _ event
    exact ⟨[], .note p event, Or.inr ⟨⟨rfl, rfl⟩, n, [specimen kind], _, Nat.le_refl n, rfl, rfl⟩⟩
  · intro e p' hfault hend
    exact ⟨hfault, hend⟩

/-- A token and then another rule. -/
theorem eat_seq {kind : Kind} {rule : Rule} {next : Token → Parse β}
    {phrases : Nat → Phrases β}
    (hbegins : ∀ t, t.kind = kind → Viable phrases n [t])
    (hnext : ∀ t p', Reads p [t] p' → t.kind = kind →
      (next t).Leads p' (.reading p' n fun m us => phrases m (t :: us))) :
    (eat kind rule >>= next).Leads p (.reading p n phrases) := by
  refine eat_reads.seq ?_ ?_
  · intro m ts t _ htoken
    obtain ⟨rfl, hkind⟩ := htoken
    exact hbegins t hkind
  · intro ts t p' _ hreads htoken
    obtain ⟨rfl, hkind⟩ := htoken
    exact hnext t p' hreads hkind

/-- **Grouping to the left.**  After an expression that is already grouped, the
loop reads the operators and operands that belong to it. -/
theorem operands_reads {rule : Rule} {op? : Kind → Option BinaryOp} {ops : List BinaryOp}
    (hop? : ∀ kind op, op? kind = some op ↔ op ∈ ops ∧ kind = op.kind)
    {operand : Parse Expr} {item : Nat → Phrases Expr}
    (hoperand : ∀ p, operand.Leads p (.reading p n item))
    (hitem : ∀ m, ∃ k ts e, m ≤ k ∧ item k ts e)
    (hmono : ∀ m k ts e, m ≤ k → item m ts e → item k ts e)
    (p : Parser) {ts : List Token} {left : Expr} (hleft : Grouped ops (item n) ts left) :
    (operands rule op? operand left).Leads p
      (.reading p n fun m us => Grouped ops (item m) (ts ++ us)) := by
  generalize hsize : p.size = size
  induction size using Nat.strongRecOn generalizing p ts left with
  | ind size ih =>
      have hkeeps : ∀ p a p', operand p = (.ok a, p') → p'.size ≤ p.size :=
        fun p a p' => size_le_of_reads (hoperand p)
      have hleft' : ∀ m, n ≤ m → Grouped ops (item m) ts left :=
        fun m hm => hleft.mono fun us e => hmono n m us e hm
      refine Leads.congr (operands_eq hkeeps left) ?_
      cases hop : p.kind?.bind op? with
      | none => exact leads_pure_reading (by simpa using hleft)
      | some op =>
          obtain ⟨kind, _, hkind⟩ := Option.bind_eq_some_iff.mp hop
          have hmem := ((hop? kind op).mp hkind).1
          refine eat_seq ?_ ?_
          · intro sign hsign
            obtain ⟨k, us, e, hk, hus⟩ := hitem n
            exact ⟨k, us, _, hk, .apply (hleft' k hk) hmem hsign hus⟩
          intro sign p' hreads hsign
          refine (hoperand p').seq ?_ ?_
          · intro m us right hm hus
            exact .of_phrase hm (.apply (hleft' m hm) hmem hsign hus)
          intro us right p'' hrun _ hus
          have hlt := hreads.size
          have hle := hkeeps p' right p'' hrun
          simp only [List.length_singleton] at hlt
          have hgrouped := Grouped.apply hleft hmem hsign hus
          refine (ih p''.size (by omega) p'' hgrouped rfl).widen ?_
          intro m vs e _ h
          simpa using h

theorem leftGrouped_reads {rule : Rule} {op? : Kind → Option BinaryOp} {ops : List BinaryOp}
    (hop? : ∀ kind op, op? kind = some op ↔ op ∈ ops ∧ kind = op.kind)
    {operand : Parse Expr} {item : Nat → Phrases Expr}
    (hoperand : ∀ p, operand.Leads p (.reading p n item))
    (hitem : ∀ m, ∃ k ts e, m ≤ k ∧ item k ts e)
    (hmono : ∀ m k ts e, m ≤ k → item m ts e → item k ts e) (p : Parser) :
    (leftGrouped rule op? operand).Leads p (.reading p n fun m => Grouped ops (item m)) := by
  rw [leftGrouped_eq]
  refine (hoperand p).seq ?_ ?_
  · intro m ts e hm he
    exact .of_phrase hm (.single he)
  · intro ts e p' _ _ he
    exact operands_reads hop? hoperand hitem hmono p' (.single he)

end Parse

end TildeLang
