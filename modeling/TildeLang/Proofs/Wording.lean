import TildeLang.Proofs.Lines

/-!
# Errors are told in one line

A message tells of a character of the source, of a number that is too large, of
kinds of token, of rules and of nodes, and of a position.  Characters are shown so
that none of them ends a line, and the names are fixed; so no message has a line
end in it, whatever stands in the source.

* `Error.OneLine` — neither the message nor the hint has a line end;
* `unbroken_escapeChar` — characters as messages show them;
* `ParseCause.unbroken_message` — the causes that the rules give;
* `LexError.oneLine`, `ParseError.oneLine` — the errors of a scan and of a rule.
-/

namespace TildeLang

/-! ### Texts without line ends -/

namespace Text

instance (text : List Char) : Decidable (Unbroken text) :=
  decidable_of_iff (text.all (!endsLine ·) = true) (by simp [Unbroken])

theorem unbroken_append {a b : List Char} :
    Unbroken (a ++ b) ↔ Unbroken a ∧ Unbroken b :=
  List.forall_mem_append

theorem unbroken_concat {a b : String} (ha : Unbroken a.toList) (hb : Unbroken b.toList) :
    Unbroken (a ++ b).toList := by
  rw [String.toList_append]
  exact unbroken_append.mpr ⟨ha, hb⟩

theorem endsLine_digitChar {d : Nat} (h : d < 16) : endsLine (Nat.digitChar d) = false := by
  interval_cases d <;> rfl

theorem unbroken_toDigits {base : Nat} (hbase : 1 < base) (hle : base ≤ 16) (n : Nat) :
    Unbroken (Nat.toDigits base n) := by
  induction n using Nat.strongRecOn with
  | ind n ih =>
      rw [Nat.toDigits_eq_if hbase]
      split
      · exact List.forall_mem_singleton.mpr (endsLine_digitChar (by omega))
      · have hlt : n / base < n := Nat.div_lt_self (by omega) hbase
        have hmod : n % base < base := Nat.mod_lt n (by omega)
        exact unbroken_append.mpr
          ⟨ih _ hlt, List.forall_mem_singleton.mpr (endsLine_digitChar (by omega))⟩

theorem unbroken_toString (n : Nat) : Unbroken (toString n).toList := by
  rw [Nat.toString_eq_ofList_toDigits, String.toList_ofList]
  exact unbroken_toDigits (by decide) (by decide) n

theorem unbroken_codePoint (c : Char) : Unbroken (codePoint c).toList := by
  have hdigits : Unbroken (Nat.toDigits 16 c.toNat) :=
    unbroken_toDigits (by decide) (by decide) c.toNat
  simp only [codePoint, String.toList_append, String.toList_ofList, unbroken_append]
  exact ⟨⟨by decide, hdigits⟩, by decide⟩

/-- **Characters.**  A character as messages show it ends no line. -/
theorem unbroken_escapeChar (c : Char) : Unbroken (escapeChar c).toList := by
  unfold escapeChar
  split
  · decide
  · unfold escapeInText
    split
    case h_7 hreturn hfeed _ _ =>
      split
      · exact unbroken_codePoint c
      · have hself : endsLine c = false := by
          rw [Bool.eq_false_iff]
          intro hends
          exact (eq_of_endsLine hends).elim hreturn hfeed
        rw [Char.toString_eq_singleton, String.toList_singleton]
        exact List.forall_mem_singleton.mpr hself
    all_goals decide

end Text

/-! ### Messages -/

open Text

/-- Neither the message of the error nor its hint has a line end. -/
structure Error.OneLine (e : Error) : Prop where
  message : Unbroken e.message.toList
  help : ∀ hint, e.help = some hint → Unbroken hint.toList

theorem Kind.unbroken_name (kind : Kind) : Unbroken kind.name.toList := by
  cases kind <;> decide

theorem Rule.unbroken_name (rule : Rule) : Unbroken rule.name.toList := by
  cases rule <;> decide

theorem Position.unbroken_sentence (p : Position) : Unbroken p.sentence.toList := by
  unfold sentence
  have hline := unbroken_concat (a := ". Line ") (by decide) (unbroken_toString p.line)
  have hword := unbroken_concat (b := " column ") hline (by decide)
  have hcolumn := unbroken_concat hword (unbroken_toString p.column)
  exact unbroken_concat hcolumn (by decide)

namespace LexError

/-- A lexical error is told in one line, if a number that it tells of is. -/
theorem oneLine {e : LexError}
    (h : ∀ lexeme, e.cause = .numberOutOfRange lexeme → Unbroken lexeme.toList) :
    (Error.lexical e).OneLine where
  message := by
    have hcause : Unbroken e.cause.message.toList := by
      unfold LexCause.message
      cases hcause : e.cause with
      | unexpectedCharacter c =>
          have hmark := unbroken_concat (a := "Unexpected character '") (by decide)
            (unbroken_escapeChar c)
          exact unbroken_concat hmark (by decide)
      | numberOutOfRange lexeme =>
          have hnumber := unbroken_concat (a := "Number literal ") (by decide) (h lexeme hcause)
          exact unbroken_concat hnumber (by decide)
    exact unbroken_concat hcause e.position.unbroken_sentence
  help := by
    intro hint hhelp
    have hhelp : e.help = some hint := hhelp
    unfold help at hhelp
    split at hhelp
    · split at hhelp
      · cases hhelp
        decide
      · cases hhelp
    · cases hhelp
      decide

end LexError

namespace ParseCause

theorem unbroken_describeFound (found : Option Kind) :
    Unbroken (describeFound found).toList := by
  cases found with
  | none => decide
  | some kind => exact kind.unbroken_name

theorem unbroken_message {cause : ParseCause}
    (h : cause.Given) : Unbroken cause.message.toList := by
  have hfound := unbroken_describeFound
  have hnames : ∀ name ∈ targetNames, Unbroken name.toList := by decide
  unfold message
  cases cause with
  | unexpectedToken expected found =>
      have hkind := unbroken_concat (a := "Unexpected token kind ") (by decide) (hfound found)
      have hword := unbroken_concat (b := ", expected ") hkind (by decide)
      exact unbroken_concat hword expected.unbroken_name
  | unexpectedStatement found => exact unbroken_concat (by decide) (hfound found)
  | unexpectedLiteral found => exact unbroken_concat (by decide) (hfound found)
  | unexpectedPrimary found => exact unbroken_concat (by decide) (hfound found)
  | invalidAssignmentTarget found =>
      exact unbroken_concat (by decide) (hnames found h)
  | trailingInput found =>
      exact unbroken_concat (unbroken_concat (by decide) (hfound found)) (by decide)
  | nestingTooDeep limit => exact unbroken_concat (by decide) (unbroken_toString limit)

end ParseCause

namespace ParseError

/-- An error of the grammar is told in one line, if its cause is one that the rules
give. -/
theorem oneLine {e : ParseError} (h : e.cause.Given) : (Error.grammar e).OneLine where
  message := by
    have hrule := unbroken_concat (a := " (in ") (by decide) e.rule.unbroken_name
    have hplace := unbroken_concat (ParseCause.unbroken_message h) e.position.unbroken_sentence
    exact unbroken_concat hplace (unbroken_concat hrule (by decide))
  help := by
    intro hint hhelp
    have hhelp : e.help = some hint := hhelp
    unfold help at hhelp
    split at hhelp
    · cases hhelp
      decide
    · cases hhelp
      decide
    · cases hhelp
      decide
    · cases hhelp

end ParseError

/-! ### The errors of a source -/

namespace TokenStream

variable {s : TokenStream} {e : LexError}

/-- Only a run of digits can be without a value. -/
theorem scan_oneLine (h : s.scan tokenTable = .error e) : (Error.lexical e).OneLine := by
  refine LexError.oneLine ?_
  have hnumbers : ∀ row ∈ tokenTable, row.reading = .number → row.shape = .run 1 .digit := by
    decide
  intro lexeme hcause
  unfold scan at h
  split at h
  · cases h
  · split at h
    · cases h
      cases hcause
    · rename_i row taken rest hmatch
      split at h
      · rename_i hvalue
        cases h
        cases hcause
        obtain ⟨hrow, hsplit⟩ := firstMatch?_mem hmatch
        have hreading : row.reading = .number := by
          cases hreading : row.reading <;> simp_all [Reading.value?]
        have hshape := (Row.split_eq_some_iff.mp hsplit).1
        rw [hnumbers row hrow hreading] at hshape
        rw [String.toList_ofList]
        intro c hc
        have hdigit := (Shape.splitRun_eq_some hshape).2.1 c hc
        rw [Bool.eq_false_iff]
        intro hends
        rcases eq_of_endsLine hends with rfl | rfl <;> cases hdigit
      · cases h

end TokenStream

end TildeLang
