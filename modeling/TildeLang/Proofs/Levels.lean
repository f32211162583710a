import TildeLang.Proofs.Comparison

/-!
# Levels are closed

A run opens levels and closes them.  Whatever its outcome, a rule leaves as
many levels open as it found; it adds to the history and takes nothing away;
and at every moment of the history, the depth of the cursor is the number of
levels that have been opened and not closed.

* `openLevels` — the number of levels that a history leaves open;
* `Accounts.depth_eq` — it is the depth, at every moment of a history that
  accounts for its levels;
* `Parser.Carries` — what a rule does to the levels of its parser;
* `carrying` — the steps of the rules do so, and every rule made of them.
-/

namespace TildeLang

namespace Event

/-- Whether a level is opened. -/
def opens : Event → Bool
  | opened _ => true
  | _ => false

/-- Whether a level is closed. -/
def closes : Event → Bool
  | closed _ => true
  | _ => false

/-- Whether levels stay as they are. -/
def keepsLevels (event : Event) : Bool := !event.opens && !event.closes

end Event

/-! ### Accounting for levels -/

/-- The number of levels that have been opened in a history. -/
def openings (history : List Moment) : Nat := history.countP (·.event.opens)

/-- The number of levels that have been closed in a history. -/
def closings (history : List Moment) : Nat := history.countP (·.event.closes)

/-- The number of levels that a history leaves open. -/
def openLevels (history : List Moment) : Nat := openings history - closings history

/-- Every moment of a history has the depth of the moment before, one more
where a level is opened, or one less where one is closed; and the history
leads to a depth. -/
inductive Accounts : List Moment → Nat → Prop
  | nil : Accounts [] 0
  | keep {m : Moment} {older : List Moment} (h : Accounts older m.cursor.depth)
      (hevent : m.event.keepsLevels = true) : Accounts (m :: older) m.cursor.depth
  | opening {rule : Rule} {c : Cursor} {older : List Moment} {depth : Nat}
      (h : Accounts older depth) (hdepth : c.depth = depth + 1) :
      Accounts (⟨.opened rule, c⟩ :: older) (depth + 1)
  | closing {rule : Rule} {c : Cursor} {older : List Moment} {depth : Nat}
      (h : Accounts older (depth + 1)) (hdepth : c.depth = depth) :
      Accounts (⟨.closed rule, c⟩ :: older) depth

namespace Accounts

variable {m : Moment} {older history : List Moment} {depth : Nat}

/-- As many levels have been opened as have been closed and are open. -/
theorem count (h : Accounts history depth) : depth + closings history = openings history := by
  induction h with
  | nil => rfl
  | keep _ hevent ih =>
      simp only [Event.keepsLevels, Bool.and_eq_true, Bool.not_eq_true'] at hevent
      simpa [openings, closings, hevent] using ih
  | opening _ _ ih =>
      simp only [openings, closings, List.countP_cons, Event.opens, Event.closes] at ih ⊢
      simp
      omega
  | closing _ _ ih =>
      simp only [openings, closings, List.countP_cons, Event.opens, Event.closes] at ih ⊢
      simp
      omega

/-- What a history accounts for, it accounts for at every moment. -/
theorem of_suffix (h : Accounts history depth) (hm : m :: older <:+ history) :
    Accounts (m :: older) m.cursor.depth := by
  induction h with
  | nil => simp at hm
  | keep h hevent ih =>
      rcases List.suffix_cons_iff.mp hm with heq | hlater
      · cases heq
        exact .keep h hevent
      · exact ih hlater
  | opening h hdepth ih =>
      rcases List.suffix_cons_iff.mp hm with heq | hlater
      · cases heq
        exact hdepth ▸ .opening h hdepth
      · exact ih hlater
  | closing h hdepth ih =>
      rcases List.suffix_cons_iff.mp hm with heq | hlater
      · cases heq
        exact hdepth ▸ .closing h hdepth
      · exact ih hlater

/-- **The depth counts levels.**  At every moment it is the number of levels
that are open then. -/
theorem depth_eq (h : Accounts history depth) (hm : m :: older <:+ history) :
    m.cursor.depth = openLevels (m :: older) := by
  have hcount := (h.of_suffix hm).count
  unfold openLevels
  omega

end Accounts

/-! ### What a rule does to levels -/

namespace Parser

/-- Some events have happened, and levels have stayed as they were. -/
structure Stays (p p' : Parser) : Prop where
  depth : p'.depth = p.depth
  exists_new : ∃ new, p'.history = new ++ p.history ∧
    ∀ m ∈ new, m.cursor.depth = p.depth ∧ m.event.keepsLevels = true

/-- The history has grown, the levels that have been opened have been closed,
and all are accounted for. -/
structure Carries (p p' : Parser) : Prop where
  depth : p'.depth = p.depth
  grows : p.history <:+ p'.history
  accounts : Accounts p.history p.depth → Accounts p'.history p'.depth

variable {p q r : Parser}

theorem Stays.refl (p : Parser) : p.Stays p := ⟨rfl, [], rfl, by simp⟩

/-- Moving the cursor and noting events keeps levels, if the events do. -/
theorem Stays.record (p : Parser) {c : Cursor} (hdepth : c.depth = p.depth)
    {events : List Event} (h : ∀ event ∈ events, event.keepsLevels = true) :
    p.Stays ((p.moveTo c).record events) := by
  refine ⟨hdepth, _, rfl, ?_⟩
  intro m hm
  obtain ⟨event, hevent, rfl⟩ := List.mem_map.mp (List.mem_reverse.mp hm)
  exact ⟨hdepth, h event hevent⟩

theorem Stays.carries (h : p.Stays q) : p.Carries q := by
  obtain ⟨hdepth, new, hhistory, hnew⟩ := h
  refine ⟨hdepth, hhistory ▸ List.suffix_append new p.history, ?_⟩
  intro hp
  rw [hhistory, hdepth]
  clear hhistory
  induction new with
  | nil => exact hp
  | cons m new ih =>
      rw [List.forall_mem_cons] at hnew
      obtain ⟨⟨hm, hevent⟩, hnew⟩ := hnew
      have hlater := ih hnew
      rw [← hm] at hlater ⊢
      exact .keep hlater hevent

theorem Carries.trans (h : p.Carries q) (h' : q.Carries r) : p.Carries r where
  depth := h'.depth.trans h.depth
  grows := h.grows.trans h'.grows
  accounts hp := h'.accounts (h.accounts hp)

/-- What happens inside a level is carried out of it. -/
theorem Carries.nest {rule : Rule} (h : (p.entering rule).Carries q) :
    p.Carries (q.leaving rule) := by
  have hdepth : q.depth = p.depth + 1 := h.depth
  have hleft : (q.leaving rule).depth = p.depth := by
    change q.depth - 1 = p.depth
    omega
  refine ⟨hleft, ?_, ?_⟩
  · exact (List.suffix_cons _ _).trans (h.grows.trans (List.suffix_cons _ _))
  · intro hp
    have hinside := h.accounts (.opening hp rfl)
    rw [hdepth] at hinside
    rw [hleft]
    exact .closing hinside hleft

end Parser

/-! ### The steps of the rules -/

namespace Parse

variable {α β : Type} {p : Parser}

theorem note_stays {event : Cursor → Event} (h : (event p.toCursor).keepsLevels = true) :
    p.Stays (note event p).2 :=
  .record p rfl (by simpa using h)

theorem fail_stays {rule : Rule} {cause : Cursor → ParseCause} :
    p.Stays (fail rule cause p : Except Error α × Parser).2 :=
  .record p rfl (by simp [Event.keepsLevels, Event.opens, Event.closes])

/-- Fetching a token scans tokens, which opens and closes nothing. -/
theorem fetch_stays {events : List Event} (h : ∀ event ∈ events, event.keepsLevels = true) :
    p.Stays (fetch events p).2 := by
  have hall : ∀ scanned : List Token, ∀ event ∈ events ++ scanned.map Event.scanned,
      event.keepsLevels = true := by
    intro scanned event hevent
    rcases List.mem_append.mp hevent with hold | hnew
    · exact h event hold
    · obtain ⟨t, _, rfl⟩ := List.mem_map.mp hnew
      rfl
  unfold fetch
  split
  · refine .record p ?_ (hall _)
    rfl
  · refine .record p ?_ (hall _)
    rfl

theorem eat_stays {kind : Kind} {rule : Rule} : p.Stays (eat kind rule p).2 := by
  unfold eat
  split
  · rename_i t _
    split
    · have hfetch : p.Stays (fetch [.took t] p).2 := fetch_stays (List.forall_mem_singleton.mpr rfl)
      change p.Stays ((fetch [.took t] >>= fun _ => pure t) p).2
      rcases hrun : fetch [.took t] p with ⟨answer, q⟩
      rw [hrun] at hfetch
      cases answer with
      | ok _ => exact bind_of_ok hrun ▸ hfetch
      | error e => exact bind_of_error hrun ▸ hfetch
    · exact fail_stays
  · exact fail_stays

/-- What one rule carries on, the next carries further. -/
theorem carries_bind {rule : Parse α} {next : α → Parse β} (hrule : p.Carries (rule p).2)
    (hnext : ∀ a q, rule p = (.ok a, q) → q.Carries (next a q).2) :
    p.Carries ((rule >>= next) p).2 := by
  rcases hrun : rule p with ⟨answer, q⟩
  rw [hrun] at hrule
  cases answer with
  | ok a =>
      rw [bind_of_ok hrun]
      exact hrule.trans (hnext a q hrun)
  | error e =>
      rw [bind_of_error hrun]
      exact hrule

/-- What a rule does to levels is a comparison. -/
def carrying : Comparison where
  Holds p _ rule' := p.Carries (rule' p).2
  congr h _ hrule' := hrule' ▸ h
  pure p _ := (Parser.Stays.refl p).carries
  note _ := (note_stays rfl).carries
  eat _ _ _ := eat_stays.carries
  fail _ _ _ _ := fail_stays.carries
  bind := carries_bind

/-- **Expressions** close the levels that they open. -/
theorem assignment_carries (n : Nat) (p : Parser) : p.Carries (assignment n p).2 :=
  compare_assignment (k := 0) (fun _ => carrying) (fun _ _ _ _ _ => Parser.Carries.nest)
    (fun _ => fail_stays.carries) n p

/-- **Statements** do too. -/
theorem statement_carries (n : Nat) (p : Parser) : p.Carries (statement n p).2 :=
  compare_statement (k := 0) (fun _ => carrying) (fun _ _ _ _ _ => Parser.Carries.nest)
    (fun _ => fail_stays.carries)
    (fun _ => carries_bind (note_stays rfl).carries fun _ _ _ => fail_stays.carries) n p

/-- So does what is done inside a level. -/
theorem assignmentLevel_carries (n : Nat) (p : Parser) :
    p.Carries (assignmentLevel (assignment n) p).2 :=
  show carrying.Holds p (assignmentLevel (assignment n)) (assignmentLevel (assignment n)) from
    carrying.assignmentLevel fun q _ => assignment_carries n q

theorem statementLevel_carries (n : Nat) (p : Parser) :
    p.Carries (statementLevel (assignment n) (statement n) p).2 :=
  show carrying.Holds p (statementLevel (assignment n) (statement n))
      (statementLevel (assignment n) (statement n)) from
    carrying.statementLevel (fun q _ => assignment_carries n q) fun q _ => statement_carries n q

end Parse

end TildeLang
