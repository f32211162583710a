import Mathlib
import TildeLang.Proofs.Derivations
import TildeLang.Proofs.Recognition

/-!
# Parsed trees are well formed

Every tree that the parser answers with is well formed.  What the grammar says
about the order of tokens and what the vocabulary says about their texts are
both needed: an identifier token may spell a reserved word, but then a number
comes right after it, and no phrase has a literal right after an identifier.

* `isName_of_identifier` — where a tree is derived from the tokens of a source,
  no identifier among them spells a reserved word;
* `names_of_derivation`, `literals_of_derivation`, `slashes_of_derivation` — the
  leaves of such a tree;
* `parsed_wellFormed` — every tree that the parser answers with is well
  formed.
-/

namespace TildeLang

section Derivation

variable {source : String} {ts : List Token} {program : Program} {n : Nat}

/-- A leaf of a derived tree is written by one of its tokens. -/
theorem exists_token_of_leaf (h : Grammar.Program n ts program) {leaf : Leaf}
    (hleaf : leaf ∈ program.leaves) : ∃ t ∈ ts, t.leaf? = some leaf := by
  rw [h.leaves_eq] at hleaf
  exact List.mem_filterMap.mp hleaf

variable (htokens : tokenize source = .ok ts)
include htokens

theorem genuine_of_mem {t : Token} (ht : t ∈ ts) : t.Genuine := by
  have houtlook := tokenize_eq_ok_iff.mp htokens
  exact TokenStream.outlook_genuine (s := TokenStream.ofText source) (by rwa [houtlook])

/-- **Identifiers.**  In a derived tree, no identifier spells a reserved word: the
number that would have to come after it cannot. -/
theorem isName_of_identifier (h : Grammar.Program n ts program) {t : Token} (ht : t ∈ ts)
    (hkind : t.kind = .identifier) : IsName t.raw.toList := by
  refine ⟨(genuine_of_mem htokens ht).name hkind, ?_⟩
  intro hreserved
  obtain ⟨before, after, rfl⟩ := List.append_of_mem ht
  obtain ⟨u, more, rfl, hnumber⟩ :=
    TokenStream.outlook_reserved (tokenize_eq_ok_iff.mp htokens) hkind hreserved
  have hcalm := (List.isChain_append.mp h.calm).2.1
  have hliteral := (List.isChain_cons_cons.mp hcalm).1 hkind
  simp [hnumber, Kind.isLiteral] at hliteral

/-- **Names.**  The names of a derived tree are names. -/
theorem names_of_derivation (h : Grammar.Program n ts program) {name : String}
    (hname : Leaf.name name ∈ program.leaves) : IsName name.toList := by
  obtain ⟨t, ht, hleaf⟩ := exists_token_of_leaf h hname
  obtain ⟨hkind, rfl⟩ := Spelling.leaf?_eq_name hleaf
  exact isName_of_identifier htokens h ht hkind

/-- The literal of a token fits, and its slashes are those of the token. -/
theorem literal_of_leaf {t : Token} (ht : t ∈ ts) {l : Literal}
    (hleaf : t.leaf? = some (.literal l)) :
    l.Fits ∧ (l.bearsSlash = true → '/' ∈ t.raw.toList) := by
  obtain ⟨k, value⟩ := l
  obtain ⟨hkind, rfl⟩ := Spelling.leaf?_eq_literal hleaf
  exact (genuine_of_mem htokens ht).literal k hkind

theorem literals_of_derivation (h : Grammar.Program n ts program) {l : Literal}
    (hl : Leaf.literal l ∈ program.leaves) : l.Fits := by
  obtain ⟨t, ht, hleaf⟩ := exists_token_of_leaf h hl
  exact (literal_of_leaf htokens ht hleaf).1

/-- A leaf with a slash is written by a token with a slash. -/
theorem slash_of_leaf {t : Token} (ht : t ∈ ts) {leaf : Leaf} (hleaf : t.leaf? = some leaf)
    (hslash : leaf.bearsSlash = true) : '/' ∈ t.raw.toList := by
  cases leaf with
  | name text => cases hslash
  | literal l => exact (literal_of_leaf htokens ht hleaf).2 hslash
  | op sign =>
      obtain rfl : sign = .divide := by simpa [Leaf.bearsSlash] using hslash
      exact (genuine_of_mem htokens ht).divide (Spelling.leaf?_eq_op hleaf)

/-- **Slashes.**  After a sign for division, no slash comes in the tree because
none comes in the source. -/
theorem slashes_of_derivation (h : Grammar.Program n ts program) :
    program.leaves.Pairwise fun leaf later => leaf = .op .divide → later.bearsSlash = false := by
  have hslashes := TokenStream.outlook_slashes (TokenStream.ofText source)
  rw [tokenize_eq_ok_iff.mp htokens] at hslashes
  rw [h.leaves_eq, List.pairwise_filterMap]
  refine hslashes.imp_of_mem ?_
  intro t u _ hu hfree _ hdivide leaf hleaf heq
  subst heq
  have hkind : t.kind = .divide := Spelling.leaf?_eq_op hdivide
  exact Bool.eq_false_iff.mpr fun hslash => hfree hkind (slash_of_leaf htokens hu hleaf hslash)

/-- A tree that is derived from the tokens of a source is well formed. -/
theorem wellFormed_of_derivation (h : Grammar.Program n ts program) : program.WellFormed where
  names _ := names_of_derivation htokens h
  literals _ := literals_of_derivation htokens h
  declares _ _ := h.wellMade _
  closed _ _ _ := h.wellMade _
  slashes := slashes_of_derivation htokens h
  begins _ := h.wellMade _

end Derivation

/-- **Parsed trees.**  Every tree that the parser answers with is well formed:
its names are names, its literals fit, its declarations declare something, its
expression statements begin with a name, each `else` belongs to the nearest
`if` that can take it, and no slash comes after a sign for division. -/
theorem parsed_wellFormed (source : String) (program : Program)
    (h : parse source = .ok program) : program.WellFormed := by
  obtain ⟨ts, htokens, hprogram⟩ := parse_eq_ok_iff.mp h
  exact wellFormed_of_derivation htokens hprogram

/-- A tree with a division after a literal that has a slash. -/
theorem parsed_wellFormed_division : ∃ program : Program,
    parse "if (aa) let bb = 'x/y', cc else aa = bb * (cc - 1) / 2" = .ok program ∧
      program.WellFormed := by
  have h : parse "if (aa) let bb = 'x/y', cc else aa = bb * (cc - 1) / 2"
      = .ok ⟨[.ifThenElse (.identifier "aa")
          (.declare .letBinding [⟨"bb", some (.literal (.char "x/y"))⟩, ⟨"cc", none⟩])
          (.expression (.assign "aa" (.binary .divide
            (.binary .multiply (.identifier "bb")
              (.binary .sub (.identifier "cc") (.literal (.number 1))))
            (.literal (.number 2)))))]⟩ := by cbv
  exact ⟨_, h, parsed_wellFormed _ _ h⟩

end TildeLang
