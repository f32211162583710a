import Mathlib.Data.List.Basic
import TildeLang.CommandLine.Run
import TildeLang.Proofs.Parts
import TildeLang.Proofs.WrittenValues

/-!
# JSON texts determine trees and tokens

Programs and tokens are printed as JSON.  The record of a node begins with the
name of its kind, a part that is missing is `null`, and no node is; values are
written bare, but a number, a text and a truth value are never the same.  So no
two programs have the same record, nor have two lists of tokens, and since a
text determines its value, no two have the same text.

* `Token.toJson_inj` — a record determines its token;
* `Stmt.toJson_inj`, `Program.toJson_inj` — and its tree;
* `CommandLine.Arguments.run_compact` — what a command line prints in the two
  layouts;
* `text_determines` — the text determines what it was made from, in both
  layouts.
-/

namespace TildeLang

/-! ### Names and values -/

/-- The kind that is printed under a name. -/
def Kind.ofName? (name : String) : Option Kind :=
  (tokenTable.map Row.kind).find? fun kind => kind.name = name

theorem Kind.ofName?_name (kind : Kind) : ofName? kind.name = some kind := by
  cases kind <;> decide +kernel

theorem Kind.name_inj {k k' : Kind} : k.name = k'.name ↔ k = k' := by
  refine ⟨fun h => ?_, fun h => by rw [h]⟩
  have hkind := ofName?_name k
  rw [h, ofName?_name] at hkind
  exact (Option.some.inj hkind).symm

theorem Category.name_inj {c c' : Category} : c.name = c'.name ↔ c = c' := by
  cases c <;> cases c' <;> decide

theorem BinaryOp.symbol_inj {op op' : BinaryOp} : op.symbol = op'.symbol ↔ op = op' := by
  cases op <;> cases op' <;> decide

theorem Binding.kind_inj {b b' : Binding} : b.kind = b'.kind ↔ b = b' := by
  cases b <;> cases b' <;> decide

/-- Values are written bare, and yet apart. -/
theorem Value.toJson_inj {v v' : Value} : v.toJson = v'.toJson ↔ v = v' := by
  cases v <;> cases v' <;> simp [toJson, UInt64.toNat_inj]

/-- **Tokens.** -/
theorem Token.toJson_inj {t t' : Token} : t.toJson = t'.toJson ↔ t = t' := by
  obtain ⟨category, kind, value, raw, start, stop, line, column⟩ := t
  obtain ⟨category', kind', value', raw', start', stop', line', column'⟩ := t'
  simp [toJson, Category.name_inj, Kind.name_inj, Value.toJson_inj]

theorem Token.listToJson_inj {ts us : List Token} :
    Token.listToJson ts = Token.listToJson us ↔ ts = us := by
  have hinj : Function.Injective Token.toJson := fun _ _ => Token.toJson_inj.mp
  rw [listToJson, listToJson, Json.array.injEq, (List.map_injective_iff.mpr hinj).eq_iff]

/-! ### Nodes -/

theorem Json.node_inj {name name' : String} {fields fields' : List (String × Json)} :
    Json.node name fields = Json.node name' fields' ↔ name = name' ∧ fields = fields' := by
  simp [node]

theorem identifierJson_inj {name name' : String} :
    identifierJson name = identifierJson name' ↔ name = name' := by
  simp [identifierJson, Json.node_inj]

/-- **Expressions.** -/
theorem Expr.toJson_inj {e e' : Expr} : e.toJson = e'.toJson ↔ e = e' := by
  induction e generalizing e' with
  | literal l =>
      cases e' with
      | literal l' =>
          obtain ⟨k, v⟩ := l
          obtain ⟨k', v'⟩ := l'
          simp [toJson, Json.node_inj, Kind.name_inj, LiteralKind.token_inj, Value.toJson_inj]
      | _ => simp [toJson, identifierJson, Json.node_inj]
  | identifier name =>
      cases e' with
      | identifier name' => simp only [toJson, identifierJson_inj, identifier.injEq]
      | _ => simp [toJson, identifierJson, Json.node_inj]
  | binary op left right ihl ihr =>
      cases e' with
      | binary op' left' right' => simp [toJson, Json.node_inj, BinaryOp.symbol_inj, ihl, ihr]
      | _ => simp [toJson, identifierJson, Json.node_inj]
  | assign target value ih =>
      cases e' with
      | assign target' value' => simp [toJson, Json.node_inj, identifierJson_inj, ih]
      | _ => simp [toJson, identifierJson, Json.node_inj]

theorem Expr.toJson_ne_null (e : Expr) : e.toJson ≠ .null := by
  cases e <;> simp [toJson, identifierJson, Json.node]

theorem Declarator.toJson_inj {d d' : Declarator} : d.toJson = d'.toJson ↔ d = d' := by
  obtain ⟨name, init⟩ := d
  obtain ⟨name', init'⟩ := d'
  -- An expression that is missing is written as `null`, and no other is.
  have hinit : (init.map Expr.toJson).getD .null = (init'.map Expr.toJson).getD .null ↔
      init = init' := by
    cases init with
    | none =>
        cases init' with
        | none => simp
        | some e' => simp [e'.toJson_ne_null.symm]
    | some e =>
        cases init' with
        | none => simp [e.toJson_ne_null]
        | some e' => simp [Expr.toJson_inj]
  simp [toJson, Json.node_inj, identifierJson_inj, hinit]

namespace Stmt

theorem toJson_ne_null (s : Stmt) : s.toJson ≠ .null := by
  cases s <;> simp [toJson, Json.node]

/-- Lists of statements that are determined by their records. -/
theorem listToJson_inj_of_mem {body body' : List Stmt}
    (h : ∀ s ∈ body, ∀ {s'}, s.toJson = s'.toJson ↔ s = s') :
    listToJson body = listToJson body' ↔ body = body' := by
  induction body generalizing body' with
  | nil => cases body' <;> simp [listToJson]
  | cons s rest ih =>
      rw [List.forall_mem_cons] at h
      cases body' with
      | nil => simp [listToJson]
      | cons s' rest' => rw [listToJson, listToJson, List.cons.injEq, List.cons.injEq, h.1, ih h.2]

/-- **Statements.**  The two conditional statements have one name, but only one
of them has `null` for an alternate. -/
theorem toJson_inj {s s' : Stmt} : s.toJson = s'.toJson ↔ s = s' := by
  induction s generalizing s' with
  | ifThen test consequent ih =>
      cases s' with
      | ifThen test' consequent' => simp [toJson, Json.node_inj, Expr.toJson_inj, ih]
      | ifThenElse test' consequent' alternate' =>
          simp [toJson, Json.node_inj, alternate'.toJson_ne_null.symm]
      | _ => simp [toJson, Json.node_inj]
  | ifThenElse test consequent alternate ihc iha =>
      cases s' with
      | ifThen test' consequent' => simp [toJson, Json.node_inj, alternate.toJson_ne_null]
      | ifThenElse test' consequent' alternate' =>
          simp [toJson, Json.node_inj, Expr.toJson_inj, ihc, iha]
      | _ => simp [toJson, Json.node_inj]
  | block body ih =>
      cases s' with
      | block body' => simp [toJson, Json.node_inj, listToJson_inj_of_mem ih]
      | _ => simp [toJson, Json.node_inj]
  | declare binding declarators =>
      cases s' with
      | declare binding' declarators' =>
          have hinj : Function.Injective Declarator.toJson := fun _ _ => Declarator.toJson_inj.mp
          simp [toJson, Json.node_inj, Kind.name_inj, Binding.kind_inj,
            (List.map_injective_iff.mpr hinj).eq_iff]
      | _ => simp [toJson, Json.node_inj]
  | expression e =>
      cases s' with
      | expression e' => simp [toJson, Json.node_inj, Expr.toJson_inj]
      | _ => simp [toJson, Json.node_inj]

end Stmt

/-- **Programs.** -/
theorem Program.toJson_inj {p q : Program} : p.toJson = q.toJson ↔ p = q := by
  obtain ⟨body⟩ := p
  obtain ⟨body'⟩ := q
  simp [toJson, Json.node_inj, Stmt.listToJson_inj_of_mem fun _ _ => Stmt.toJson_inj]

/-! ### Texts -/

/-- A command line prints on one line what it prints over several lines, without
the blanks. -/
theorem CommandLine.Arguments.run_compact (a : Arguments) (contents : Except ReadError String) :
    { a with compact := true }.run contents
      = ({ a with compact := false }.run contents).map Json.withoutBlanks := by
  cases contents with
  | error e => rfl
  | ok source =>
      have hresult : { a with compact := true }.result source
          = { a with compact := false }.result source := rfl
      simp only [run, hresult]
      cases { a with compact := false }.result source with
      | error e => rfl
      | ok value => simp [Except.map, Json.withoutBlanks_pretty]

/-- **The text determines what it was made from.**  Two programs have the same
text exactly if they are the same, on one line and over several lines, whether or
not they come from a source; so it is with single expressions, down to literals
whose kind and value do not agree, and with lists of tokens.  Without the blanks
outside of quoted texts, the text over several lines is the text on one line, and
so it is with what a command line prints. -/
theorem text_determines :
    (∀ p q : Program, (p.toJson.compact = q.toJson.compact ↔ p = q) ∧
      (p.toJson.pretty = q.toJson.pretty ↔ p = q)) ∧
    (∀ ts us : List Token,
      ((Token.listToJson ts).compact = (Token.listToJson us).compact ↔ ts = us) ∧
      ((Token.listToJson ts).pretty = (Token.listToJson us).pretty ↔ ts = us)) ∧
    (∀ e e' : Expr, (e.toJson.compact = e'.toJson.compact ↔ e = e') ∧
      (e.toJson.pretty = e'.toJson.pretty ↔ e = e')) ∧
    (∀ value : Json, Json.withoutBlanks value.pretty = value.compact) ∧
    (∀ (a : CommandLine.Arguments) (contents : Except CommandLine.ReadError String),
      { a with compact := true }.run contents
        = ({ a with compact := false }.run contents).map Json.withoutBlanks) :=
  ⟨fun _ _ => ⟨Json.compact_inj.trans Program.toJson_inj, Json.pretty_inj.trans Program.toJson_inj⟩,
    fun _ _ =>
      ⟨Json.compact_inj.trans Token.listToJson_inj, Json.pretty_inj.trans Token.listToJson_inj⟩,
    fun _ _ => ⟨Json.compact_inj.trans Expr.toJson_inj, Json.pretty_inj.trans Expr.toJson_inj⟩,
    Json.withoutBlanks_pretty, CommandLine.Arguments.run_compact⟩

/-- A number is told from a text that stands under its kind. -/
example : (Program.mk [.expression (.literal (.number 1))]).toJson.compact
    ≠ (Program.mk [.expression (.literal ⟨.number, .text "1"⟩)]).toJson.compact := by
  decide +kernel

end TildeLang
