import Mathlib
import TildeLang.Proofs.Lossless
import TildeLang.Proofs.WellFormed

/-!
# What the values of tokens stand for

The value of a token is read from its text and from nothing else.  Digits denote
a number in base ten; what stands between two quotes is a text, whatever is in
it; the words `true` and `false` are the two truth values; and every other text
stands for itself.

From the tokens the values go into the tree.  What the names and the literals of
a tree **carry**, in the order in which they are written, is what the tokens
carry from which it was read.

* `Text.numeral` — the number that digits denote in base ten;
* `Reading.readNumber?_eq_some_iff` — digits are read as the number that they
  denote;
* `scan_represents` — the value of a token is what its text stands for;
* `carried_leaves` — the leaves that tokens write carry what the tokens
  carry;
* `values_represent` — both, for every source.
-/

namespace TildeLang

/-! ### Numbers -/

/-- The number that digits denote in base ten: the last one counts once, the one
before it ten times, and so on. -/
def Text.numeral (digits : List Char) : Nat :=
  Nat.ofDigits 10 (digits.reverse.map fun c => c.toNat - '0'.toNat)

theorem Text.numeral_concat (digits : List Char) (c : Char) :
    numeral (digits ++ [c]) = 10 * numeral digits + (c.toNat - '0'.toNat) := by
  simp only [numeral, List.reverse_append, List.reverse_singleton, List.singleton_append,
    List.map_cons, Nat.ofDigits_cons]
  omega

/-- Reading digits from the first to the last gives the number that they
denote. -/
theorem Reading.decimal_eq_numeral (digits : List Char) :
    decimal digits = Text.numeral digits := by
  induction digits using List.reverseRecOn with
  | nil => rfl
  | append_singleton digits c ih =>
      rw [Text.numeral_concat, ← ih]
      simp [decimal]

section Digits

variable {digits : List Char} (hne : digits ≠ []) (hdigits : ∀ c ∈ digits, c.isDigit = true)
include hne hdigits

/-- Digits are read as the number that they denote. -/
theorem Reading.readNumber?_eq_some_iff {n : UInt64} :
    readNumber? digits = some n ↔ n.toNat = Text.numeral digits := by
  rw [readNumber?_of_digits hne hdigits, ← decimal_eq_numeral]
  split
  · rw [Option.some.injEq, ← UInt64.toNat_inj, UInt64.toNat_ofNatLT, eq_comm]
  · rename_i hlarge
    simp only [reduceCtorEq, false_iff]
    exact fun heq => hlarge (heq ▸ n.toNat_lt_size)

/-- They are not read where that number is too large. -/
theorem Reading.readNumber?_eq_none_iff :
    readNumber? digits = none ↔ 2 ^ 64 ≤ Text.numeral digits := by
  rw [readNumber?_of_digits hne hdigits, ← decimal_eq_numeral, ← Nat.not_lt]
  simp [UInt64.size]

end Digits

/-! ### The value of one token -/

/-- The text of a token is its value between two marks, and the value holds no
such mark.  It is what the text has between its first and its last byte. -/
def Token.Quotes (mark : Char) (t : Token) : Prop :=
  ∃ inner : String, t.value = .text inner ∧ t.raw.toList = mark :: (inner.toList ++ [mark]) ∧
    mark ∉ inner.toList ∧ Text.Between t.raw 1 (t.raw.utf8ByteSize - 1) inner

/-- The value of a token is what its text stands for, where another text comes
after it. -/
def Token.Represents (t : Token) (after : List Char) : Prop :=
  match t.kind with
  | .number =>
      t.raw ≠ "" ∧ (∀ c ∈ t.raw.toList, c.isDigit = true) ∧ Stops Char.isDigit after ∧
        Text.numeral t.raw.toList < 2 ^ 64 ∧
        ∃ n, t.value = .number n ∧ n.toNat = Text.numeral t.raw.toList
  | .string => t.Quotes '"'
  | .char => t.Quotes '\''
  | .boolTrue => t.raw = "true" ∧ t.value = .truth true
  | .boolFalse => t.raw = "false" ∧ t.value = .truth false
  | _ => t.value = .text t.raw

theorem Token.represents_iff_verbatim {t : Token} (h : t.kind.isLiteral = false)
    (after : List Char) : t.Represents after ↔ t.value = .text t.raw := by
  unfold Represents
  split <;> simp_all [Kind.isLiteral]

/-- How the rows of the table are laid out and read. -/
theorem Row.layout : ∀ row ∈ tokenTable,
    row.kind = .number ∧ row.shape = .run 1 .digit ∧ row.reading = .number ∨
    row.kind = .string ∧ row.shape = .enclosed '"' ∧ row.reading = .unquoted ∨
    row.kind = .char ∧ row.shape = .enclosed '\'' ∧ row.reading = .unquoted ∨
    row.kind = .boolTrue ∧ row.shape = .fixed "true".toList ∧ row.reading = .truth true ∨
    row.kind = .boolFalse ∧ row.shape = .fixed "false".toList ∧ row.reading = .truth false ∨
    row.kind.isLiteral = false ∧ row.reading = .verbatim := by decide

/-- The value of a text between two marks is what the text has between its first
and its last byte. -/
theorem Token.quotes_of_enclosed {mark : Char} (hmark : mark.utf8Size = 1)
    {whole taken rest : List Char} (hsplit : Shape.splitEnclosed mark whole = some (taken, rest))
    {t : Token} (hraw : t.raw = String.ofList taken)
    (hvalue : Reading.unquoted.value? taken = some t.value) : t.Quotes mark := by
  obtain ⟨inner, rfl, hinner⟩ := Shape.splitEnclosed_eq_some hsplit
  rw [Reading.value?, unquote_enclosed hmark, Option.some.injEq] at hvalue
  have hlist : t.raw.toList = [mark] ++ (inner ++ [mark]) := by simp [hraw]
  have hsize : t.raw.utf8ByteSize - 1 = 1 + Text.byteLength inner := by
    rw [hraw, Text.utf8ByteSize_ofList]
    simp [hmark]
    omega
  have hbetween := Text.Between.of_split hlist
  simp only [Text.byteLength_cons, Text.byteLength_nil, hmark, Nat.add_zero] at hbetween
  refine ⟨String.ofList inner, hvalue.symm, by simp [hraw], by simpa using hinner, ?_⟩
  rw [hsize]
  exact hbetween

namespace TokenStream

variable {s next : TokenStream} {t : Token}

/-- **Values.**  The value of a token that is scanned is what its text stands
for. -/
theorem scan_represents (h : s.scan tokenTable = .ok (some (t, next))) :
    t.Represents next.rest := by
  obtain ⟨row, taken, rest, value, hrow, hsplit, hvalue, rfl, rfl⟩ := scan_eq_some h
  obtain ⟨hshape, hne⟩ := Row.split_eq_some_iff.mp hsplit
  rcases Row.layout row hrow with ⟨hkind, hlayout, hreading⟩ | ⟨hkind, hlayout, hreading⟩ |
    ⟨hkind, hlayout, hreading⟩ | ⟨hkind, hlayout, hreading⟩ | ⟨hkind, hlayout, hreading⟩ |
    ⟨hkind, hreading⟩
  · rw [hlayout] at hshape
    rw [hreading] at hvalue
    obtain ⟨_, hdigits, hstops⟩ := Shape.splitRun_eq_some hshape
    obtain ⟨n, hread, rfl⟩ := Option.map_eq_some_iff.mp hvalue
    have hn := (Reading.readNumber?_eq_some_iff hne hdigits).mp hread
    simp only [Token.Represents, tokenAt, hkind, String.toList_ofList, after]
    refine ⟨by simpa using hne, hdigits, hstops, ?_, n, rfl, hn⟩
    rw [← hn]
    exact n.toNat_lt
  · rw [hlayout] at hshape
    rw [hreading] at hvalue
    simp only [Token.Represents, tokenAt, hkind]
    exact Token.quotes_of_enclosed (by decide) hshape rfl hvalue
  · rw [hlayout] at hshape
    rw [hreading] at hvalue
    simp only [Token.Represents, tokenAt, hkind]
    exact Token.quotes_of_enclosed (by decide) hshape rfl hvalue
  · rw [hlayout] at hshape
    rw [hreading] at hvalue
    obtain ⟨rfl, _⟩ := Shape.splitFixed_eq_some_iff.mp hshape
    obtain rfl := Option.some.inj hvalue
    simp [Token.Represents, tokenAt, hkind]
  · rw [hlayout] at hshape
    rw [hreading] at hvalue
    obtain ⟨rfl, _⟩ := Shape.splitFixed_eq_some_iff.mp hshape
    obtain rfl := Option.some.inj hvalue
    simp [Token.Represents, tokenAt, hkind]
  · rw [hreading] at hvalue
    refine (Token.represents_iff_verbatim hkind _).mpr ?_
    exact (Option.some.inj hvalue).symm

end TokenStream

/-! ### From the tokens into the tree -/

/-- What a name or a literal carries: its kind, and its text or its value. -/
def Leaf.carried? : Leaf → Option (Kind × Value)
  | name text => some (.identifier, .text text)
  | literal l => some (l.kind.token, l.value)
  | op _ => none

/-- Whether a token is a name or a literal. -/
def Token.isCarrier (t : Token) : Bool := t.kind == .identifier || t.kind.isLiteral

/-- What a name or a literal carries: its kind, and its text or its value. -/
def Token.carried (t : Token) : Kind × Value :=
  (t.kind, if t.kind = .identifier then .text t.raw else t.value)

/-- One token carries what its leaf carries. -/
theorem Token.carried_leaf (t : Token) :
    t.leaf?.bind Leaf.carried? = if t.isCarrier then some t.carried else none := by
  by_cases hname : t.kind = .identifier
  · simp [Token.leaf?_name hname, Leaf.carried?, isCarrier, Token.carried, hname]
  · cases hk : LiteralKind.ofToken? t.kind with
    | some k =>
        have hkind := LiteralKind.ofToken?_eq_some_iff.mp hk
        have hleaf : t.leaf? = some (.literal ⟨k, t.value⟩) := leaf?_literal hkind rfl
        have hcarrier : t.isCarrier = true := by simp [isCarrier, ← hkind]
        simp [hleaf, Leaf.carried?, hcarrier, Token.carried, hname, hkind]
    | none =>
        have hliteral := LiteralKind.ofToken?_eq_none_iff.mp hk
        have hnone : t.isCarrier = false := by simp [isCarrier, hname, hliteral]
        rw [hnone, if_neg (by decide)]
        cases hleaf : t.leaf? with
        | none => rfl
        | some leaf =>
            cases leaf with
            | name text => exact absurd (Spelling.leaf?_eq_name hleaf).1 hname
            | literal l =>
                have hkind : l.kind.token = t.kind := (Spelling.leaf?_eq_literal hleaf).1
                simp [← hkind] at hliteral
            | op sign => rfl

/-- **From the tokens into the tree.**  The leaves that tokens write carry what
the names and literals among the tokens carry, in the same order. -/
theorem carried_leaves (ts : List Token) :
    (ts.filterMap Token.leaf?).filterMap Leaf.carried?
      = (ts.filter Token.isCarrier).map Token.carried := by
  calc (ts.filterMap Token.leaf?).filterMap Leaf.carried?
      = ts.filterMap fun t => t.leaf?.bind Leaf.carried? := List.filterMap_filterMap
    _ = ts.filterMap fun t => if t.isCarrier then some t.carried else none :=
        List.filterMap_congr fun t _ => t.carried_leaf
    _ = (ts.filter Token.isCarrier).filterMap (some ∘ Token.carried) :=
        List.filterMap_filter.symm
    _ = (ts.filter Token.isCarrier).map Token.carried := by rw [List.filterMap_eq_map]

open TokenStream

/-- **Values.**  Whatever is asked of a stream, a token that is answered stands
somewhere in the source, and its value is what its text stands for there.  A
tree that is read from the source has names and literals that carry, in the order
in which they are written, what the identifiers and literals among the tokens
carry: the texts of the identifiers, and the values of the literals. -/
theorem values_represent (source : String) :
    (∀ calls call t, (((ofText source).afterCalls calls).ask call).answer = .ok (some t) →
      ∃ before after, source.toList = before ++ (t.raw.toList ++ after) ∧
        t.start = Text.byteLength before ∧ t.Represents after) ∧
    (∀ program, parse source = .ok program → ∃ ts, tokenize source = .ok ts ∧
      program.leaves.filterMap Leaf.carried?
        = (ts.filter Token.isCarrier).map Token.carried) ∧
    (∀ e, parseExpression source = .ok e → ∃ ts, tokenize source = .ok ts ∧
      e.leaves.filterMap Leaf.carried?
        = (ts.filter Token.isCarrier).map Token.carried) := by
  refine ⟨?_, ?_, ?_⟩
  · intro calls call t hanswer
    obtain ⟨s, next, before, hscan, hsource, hstart⟩ := exists_scan_of_answer hanswer
    rw [(scan_rest hscan).1] at hsource
    exact ⟨before, next.rest, hsource, hstart, scan_represents hscan⟩
  · intro program h
    obtain ⟨ts, htokens, hprogram⟩ := parse_eq_ok_iff.mp h
    refine ⟨ts, htokens, ?_⟩
    rw [hprogram.leaves_eq]
    exact carried_leaves ts
  · intro e h
    obtain ⟨ts, htokens, hexpression⟩ := parseExpression_eq_ok_iff.mp h
    refine ⟨ts, htokens, ?_⟩
    rw [hexpression.leaves_eq]
    exact carried_leaves ts

/-- A number with zeros in front, and a text with a letter of two bytes and a line
end in it.  Both values come into the tree behind the names. -/
theorem values_represent_accent :
    (∃ t after, (((ofText "let aa = 007, bb = 'é\n'").afterCalls
        (List.replicate 3 .token)).ask .token).answer = .ok (some t) ∧
      t.value = .number 7 ∧ t.Represents after) ∧
    (∃ t, (((ofText "let aa = 007, bb = 'é\n'").afterCalls
        (List.replicate 7 .token)).ask .token).answer = .ok (some t) ∧
      t.value = .text "é\n" ∧ t.Quotes '\'') ∧
    (∃ program ts, parse "let aa = 007, bb = 'é\n'" = .ok program ∧
      tokenize "let aa = 007, bb = 'é\n'" = .ok ts ∧
      (ts.filter Token.isCarrier).map Token.carried
        = [(.identifier, .text "aa"), (.number, .number 7), (.identifier, .text "bb"),
          (.char, .text "é\n")]) := by
  obtain ⟨hanswers, hprogram, _⟩ := values_represent "let aa = 007, bb = 'é\n'"
  refine ⟨?_, ?_, ?_⟩
  · have hanswer : (((ofText "let aa = 007, bb = 'é\n'").afterCalls
        (List.replicate 3 .token)).ask .token).answer
        = .ok (some ⟨.literal, .number, .number 7, "007", 9, 12, ⟨1, 10⟩⟩) := by cbv
    obtain ⟨_, after, _, _, hrepresents⟩ := hanswers _ _ _ hanswer
    exact ⟨_, after, hanswer, rfl, hrepresents⟩
  · have hanswer : (((ofText "let aa = 007, bb = 'é\n'").afterCalls
        (List.replicate 7 .token)).ask .token).answer
        = .ok (some ⟨.literal, .char, .text "é\n", "'é\n'", 19, 24, ⟨1, 20⟩⟩) := by cbv
    obtain ⟨_, _, _, _, hrepresents⟩ := hanswers _ _ _ hanswer
    exact ⟨_, hanswer, rfl, hrepresents⟩
  · have hparse : parse "let aa = 007, bb = 'é\n'" = .ok ⟨[.declare .letBinding
        [⟨"aa", some (.literal (.number 7))⟩,
          ⟨"bb", some (.literal (.char "é\n"))⟩]]⟩ := by cbv
    obtain ⟨ts, htokens, hcarried⟩ := hprogram _ hparse
    exact ⟨_, ts, hparse, htokens, hcarried.symm⟩

end TildeLang
