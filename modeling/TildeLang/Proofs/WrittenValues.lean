import TildeLang.Json
import TildeLang.Proofs.Vocabulary

/-!
# JSON texts determine their values

The text of a value on one line tells where it ends: what may follow a value
does not begin with a digit, so even a number cannot be mistaken for the front
of another.  Hence two values with the same text are the same, whatever texts,
numbers and lists they hold.

The other layout differs by blanks outside of quoted texts.  Taking those away
gives the text on one line, so that layout determines its values too.

* `Json.induction` — a property that goes from the parts of a value to the value
  holds of all values;
* `Delimits` — a text that tells where it ends;
* `Json.delimits_write` — the text of a value on one line does;
* `Json.withoutBlanks_pretty` — the two layouts differ by blanks;
* `Json.compact_inj`, `Json.pretty_inj` — both determine their values.
-/

namespace TildeLang

/-- To prove a property of all values, it may be assumed of the values directly
inside. -/
@[elab_as_elim, induction_eliminator]
theorem Json.induction {motive : Json → Prop} (null : motive .null)
    (bool : ∀ b, motive (.bool b)) (number : ∀ n, motive (.number n))
    (string : ∀ s, motive (.string s))
    (array : ∀ items, (∀ item ∈ items, motive item) → motive (.array items))
    (object : ∀ fields, (∀ field ∈ fields, motive field.2) → motive (.object fields))
    (value : Json) : motive value := by
  refine @Json.rec motive (fun items => ∀ item ∈ items, motive item)
    (fun fields => ∀ field ∈ fields, motive field.2) (fun field => motive field.2)
    null bool number string array object ?_ ?_ ?_ ?_ ?_ value
  · simp
  · exact fun first rest hfirst hrest => List.forall_mem_cons.mpr ⟨hfirst, hrest⟩
  · simp
  · exact fun first rest hfirst hrest => List.forall_mem_cons.mpr ⟨hfirst, hrest⟩
  · exact fun name value hvalue => hvalue

/-! ### Lists between brackets -/

section Brackets

variable {α : Type}

/-- Things between brackets, with commas between them.  One text of blanks
stands after the left bracket and after every comma, another before the right
bracket. -/
def bracketed (left right : Char) (lead trail : List Char) (write : α → List Char) :
    List α → List Char
  | [] => [left, right]
  | a :: more =>
      left :: (lead ++ write a ++ more.flatMap (fun b => ',' :: (lead ++ write b)) ++
        trail ++ [right])

/-- The text of a thing tells where it ends, if what follows does not begin with
a digit. -/
def Delimits (write : α → List Char) (a : α) : Prop :=
  ∀ b rest rest', Stops Char.isDigit rest → Stops Char.isDigit rest' →
    write a ++ rest = write b ++ rest' → a = b ∧ rest = rest'

variable {left right : Char} {write : α → List Char} {items items' : List α}
  {rest rest' : List Char}

/-- A comma and a right bracket are no digits. -/
theorem stops_flatMap_comma (hright : right.isDigit = false) (items : List α)
    (rest : List Char) :
    Stops Char.isDigit (items.flatMap (fun b => ',' :: write b) ++ right :: rest) := by
  intro c hc
  cases items with
  | nil =>
      obtain rfl : right = c := by simpa using hc
      exact hright
  | cons b more =>
      obtain rfl : ',' = c := by simpa using hc
      rfl

/-- Things after commas, up to a right bracket. -/
theorem flatMap_comma_inj (hcomma : right ≠ ',') (hright : right.isDigit = false)
    (hitems : ∀ a ∈ items, Delimits write a)
    (h : items.flatMap (fun b => ',' :: write b) ++ right :: rest
      = items'.flatMap (fun b => ',' :: write b) ++ right :: rest') :
    items = items' ∧ rest = rest' := by
  induction items generalizing items' with
  | nil =>
      cases items' with
      | nil => simpa using h
      | cons b more => exact absurd (List.cons.inj h).1 hcomma
  | cons a items ih =>
      rw [List.forall_mem_cons] at hitems
      cases items' with
      | nil => exact absurd (List.cons.inj h).1.symm hcomma
      | cons b more =>
          simp only [List.flatMap_cons, List.cons_append, List.append_assoc, List.cons.injEq,
            true_and] at h
          obtain ⟨rfl, hmore⟩ := hitems.1 b _ _ (stops_flatMap_comma hright _ _)
            (stops_flatMap_comma hright _ _) h
          obtain ⟨rfl, hrest⟩ := ih hitems.2 hmore
          exact ⟨rfl, hrest⟩

theorem bracketed_cons_append (a : α) (more : List α) (rest : List Char) :
    bracketed left right [] [] write (a :: more) ++ rest
      = left :: (write a ++ (more.flatMap (fun b => ',' :: write b) ++ right :: rest)) := by
  simp [bracketed]

/-- **Brackets close.**  Things whose texts tell where they end, and that cannot
be mistaken for the right bracket, can be put between brackets. -/
theorem bracketed_inj (hcomma : right ≠ ',') (hright : right.isDigit = false)
    (hhead : ∀ a rest, (write a ++ rest).head? ≠ some right)
    (hitems : ∀ a ∈ items, Delimits write a)
    (h : bracketed left right [] [] write items ++ rest
      = bracketed left right [] [] write items' ++ rest') :
    items = items' ∧ rest = rest' := by
  cases items with
  | nil =>
      cases items' with
      | nil => simpa [bracketed] using h
      | cons b more =>
          rw [bracketed_cons_append] at h
          exact absurd (congrArg List.head? (List.cons.inj h).2).symm (hhead b _)
  | cons a items =>
      rw [List.forall_mem_cons] at hitems
      rw [bracketed_cons_append] at h
      cases items' with
      | nil => exact absurd (congrArg List.head? (List.cons.inj h).2) (hhead a _)
      | cons b more =>
          rw [bracketed_cons_append] at h
          obtain ⟨rfl, hmore⟩ := hitems.1 b _ _ (stops_flatMap_comma hright _ _)
            (stops_flatMap_comma hright _ _) (List.cons.inj h).2
          obtain ⟨rfl, hrest⟩ := flatMap_comma_inj hcomma hright hitems.2 hmore
          exact ⟨rfl, hrest⟩

end Brackets

namespace Json

/-! ### Quoted texts -/

/-- The characters that are escaped: the quote, the backslash, and the control
characters below the blank. -/
def escaped : List Char := '"' :: '\\' :: (List.range 32).map Char.ofNat

theorem escape_of_not_mem {c : Char} (h : c ∉ escaped) : escape c = [c] := by
  have hnat : ¬ c.toNat < 32 := by
    intro hlt
    refine h (List.mem_cons_of_mem _ (List.mem_cons_of_mem _ ?_))
    exact List.mem_map.mpr ⟨c.toNat, List.mem_range.mpr hlt, Char.ofNat_toNat c⟩
  unfold escape
  split
  case h_8 => rw [if_neg hnat]
  all_goals exact absurd (by decide) h

-- What holds of all escaped characters is evaluated on their list.
theorem head?_escape_of_mem {c : Char} (hc : c ∈ escaped) : (escape c).head? = some '\\' := by
  have hall : (escaped.all fun c => (escape c).head? == some '\\') = true := by decide +kernel
  simpa using List.all_eq_true.mp hall c hc

theorem eq_of_escape_front_of_mem {c d : Char} (hc : c ∈ escaped) (hd : d ∈ escaped)
    (h : escape c <+: escape d) : c = d := by
  have hall : (escaped.all fun c => escaped.all fun d =>
      decide (escape c <+: escape d → c = d)) = true := by decide +kernel
  have hpair := List.all_eq_true.mp (List.all_eq_true.mp hall c hc) d hd
  exact of_decide_eq_true hpair h

/-- The text of a character is not empty, and begins with no quote. -/
theorem exists_escape_eq_cons (c : Char) : ∃ first more, escape c = first :: more ∧ first ≠ '"' := by
  by_cases hc : c ∈ escaped
  · obtain ⟨more, hmore⟩ := List.head?_eq_some_iff.mp (head?_escape_of_mem hc)
    exact ⟨'\\', more, hmore, by decide⟩
  · refine ⟨c, [], escape_of_not_mem hc, ?_⟩
    rintro rfl
    exact hc (by decide)

/-- No character is written as the front of another. -/
theorem eq_of_escape_front {c d : Char} (h : escape c <+: escape d) : c = d := by
  by_cases hc : c ∈ escaped
  · by_cases hd : d ∈ escaped
    · exact eq_of_escape_front_of_mem hc hd h
    · -- A character that stands for itself is no backslash.
      rw [escape_of_not_mem hd] at h
      obtain ⟨more, hmore⟩ := List.head?_eq_some_iff.mp (head?_escape_of_mem hc)
      rw [hmore, List.cons_prefix_cons] at h
      exact absurd (h.1 ▸ by decide) hd
  · rw [escape_of_not_mem hc] at h
    by_cases hd : d ∈ escaped
    · obtain ⟨more, hmore⟩ := List.head?_eq_some_iff.mp (head?_escape_of_mem hd)
      rw [hmore, List.cons_prefix_cons] at h
      exact absurd (h.1 ▸ by decide) hc
    · rw [escape_of_not_mem hd, List.cons_prefix_cons] at h
      exact h.1

theorem escape_append_inj {c d : Char} {rest rest' : List Char}
    (h : escape c ++ rest = escape d ++ rest') : c = d ∧ rest = rest' := by
  have hprefix : escape c <+: escape d ++ rest' := ⟨rest, h⟩
  obtain rfl : c = d := by
    rcases List.prefix_or_prefix_of_prefix hprefix (List.prefix_append _ _) with hcd | hdc
    · exact eq_of_escape_front hcd
    · exact (eq_of_escape_front hdc).symm
  exact ⟨rfl, List.append_cancel_left h⟩

/-- **The closing quote** is the first one that is not escaped. -/
theorem flatMap_escape_inj {s s' rest rest' : List Char}
    (h : s.flatMap escape ++ '"' :: rest = s'.flatMap escape ++ '"' :: rest') :
    s = s' ∧ rest = rest' := by
  induction s generalizing s' with
  | nil =>
      cases s' with
      | nil => simpa using h
      | cons d s' =>
          obtain ⟨first, more, hfirst, hne⟩ := exists_escape_eq_cons d
          rw [List.flatMap_cons, hfirst] at h
          exact absurd (List.cons.inj h).1.symm hne
  | cons c s ih =>
      cases s' with
      | nil =>
          obtain ⟨first, more, hfirst, hne⟩ := exists_escape_eq_cons c
          rw [List.flatMap_cons, hfirst] at h
          exact absurd (List.cons.inj h).1 hne
      | cons d s' =>
          rw [List.flatMap_cons, List.flatMap_cons, List.append_assoc, List.append_assoc] at h
          obtain ⟨rfl, hmore⟩ := escape_append_inj h
          obtain ⟨rfl, hrest⟩ := ih hmore
          exact ⟨rfl, hrest⟩

theorem quote_append_inj {s s' : String} {rest rest' : List Char}
    (h : (quote s).toList ++ rest = (quote s').toList ++ rest') : s = s' ∧ rest = rest' := by
  simp only [quote, String.toList_ofList, List.cons_append, List.append_assoc, List.nil_append,
    List.cons.injEq, true_and] at h
  obtain ⟨hsame, hrest⟩ := flatMap_escape_inj h
  exact ⟨String.toList_inj.mp hsame, hrest⟩

/-! ### Values on one line -/

/-- The text of a field. -/
def writeField (layout : Layout) (depth : Nat) (field : String × Json) : List Char :=
  (quote field.1).toList ++ layout.colon.toList ++ (write layout depth field.2).toList

theorem write_array (layout : Layout) (depth : Nat) (items : List Json) :
    (write layout depth (.array items)).toList
      = bracketed '[' ']' (layout.newLine (depth + 1)).toList (layout.newLine depth).toList
          (fun item => (write layout (depth + 1) item).toList) items := by
  have hmore : ∀ more : List Json, (writeItems layout (depth + 1) more).toList
      = more.flatMap fun item =>
          ',' :: ((layout.newLine (depth + 1)).toList ++ (write layout (depth + 1) item).toList) := by
    intro more
    induction more with
    | nil => simp [writeItems]
    | cons item more ih => simp [writeItems, ih]
  cases items with
  | nil => simp [write, bracketed]
  | cons item more => simp [write, bracketed, hmore]

theorem write_object (layout : Layout) (depth : Nat) (fields : List (String × Json)) :
    (write layout depth (.object fields)).toList
      = bracketed '\x7b' '\x7d' (layout.newLine (depth + 1)).toList (layout.newLine depth).toList
          (writeField layout (depth + 1)) fields := by
  have hmore : ∀ more : List (String × Json), (writeFields layout (depth + 1) more).toList
      = more.flatMap fun field =>
          ',' :: ((layout.newLine (depth + 1)).toList ++ writeField layout (depth + 1) field) := by
    intro more
    induction more with
    | nil => simp [writeFields]
    | cons field more ih => simp [writeFields, writeField, ih]
  cases fields with
  | nil => simp [write, bracketed]
  | cons field more => simp [write, bracketed, writeField, hmore]

/-- Two values are both nothing, both truth values, and so on. -/
inductive SameKind : Json → Json → Prop
  | null : SameKind .null .null
  | bool (b b' : Bool) : SameKind (.bool b) (.bool b')
  | number (n n' : Nat) : SameKind (.number n) (.number n')
  | string (s s' : String) : SameKind (.string s) (.string s')
  | array (items items' : List Json) : SameKind (.array items) (.array items')
  | object (fields fields' : List (String × Json)) : SameKind (.object fields) (.object fields')

/-- What the text of a value begins with, up to `beginning`. -/
def initial : Json → Char
  | null => 'n'
  | bool _ => 't'
  | number _ => '0'
  | string _ => '"'
  | array _ => '['
  | object _ => '\x7b'

/-- The first character of a text, where the digits count as one, and so do the
first letters of the two truth values. -/
def beginning (c : Char) : Char :=
  if c.isDigit then '0' else if c = 'f' then 't' else c

theorem write_number (layout : Layout) (depth n : Nat) :
    (write layout depth (.number n)).toList = Nat.toDigits 10 n := by
  simp [write]

theorem isDigit_of_mem_toDigits {n : Nat} :
    ∀ c ∈ Nat.toDigits 10 n, Char.isDigit c = true :=
  fun _ hc => Nat.isDigit_of_mem_toDigits (by decide) (by decide) hc

/-- The first character of a text tells what kind of value it is the text of. -/
theorem head?_write (layout : Layout) (depth : Nat) (value : Json) (rest : List Char) :
    ((write layout depth value).toList ++ rest).head?.map beginning = some value.initial := by
  cases value with
  | null => simp [write, initial, beginning]
  | bool b => cases b <;> simp [write, initial, beginning]
  | number n =>
      rw [write_number]
      cases hdigits : Nat.toDigits 10 n with
      | nil => exact absurd hdigits Nat.toDigits_ne_nil
      | cons c more =>
          have hc : c.isDigit = true := isDigit_of_mem_toDigits (n := n) c (by simp [hdigits])
          simp [initial, beginning, hc]
  | string s => simp [write, quote, initial, beginning]
  | array items =>
      rw [write_array]
      cases items <;> simp [bracketed, initial, beginning]
  | object fields =>
      rw [write_object]
      cases fields <;> simp [bracketed, initial, beginning]

/-- A number ends where its digits do. -/
theorem toDigits_append_inj {n m : Nat} {rest rest' : List Char} (hrest : Stops Char.isDigit rest)
    (hrest' : Stops Char.isDigit rest')
    (h : Nat.toDigits 10 n ++ rest = Nat.toDigits 10 m ++ rest') : n = m ∧ rest = rest' := by
  have hsplit := hrest.splitRun (isDigit_of_mem_toDigits (n := n)) (Nat.zero_le _)
  rw [h, hrest'.splitRun isDigit_of_mem_toDigits (Nat.zero_le _)] at hsplit
  obtain ⟨hdigits, hsame⟩ := Prod.mk.inj (Option.some.inj hsplit)
  refine ⟨?_, hsame.symm⟩
  rw [← @Nat.ofDigitChars_ten_toDigits n, ← hdigits, Nat.ofDigitChars_ten_toDigits]

/-- Two texts that begin alike are of values of one kind. -/
theorem sameKind_of_write {layout : Layout} {depth : Nat} {value other : Json}
    {rest rest' : List Char}
    (h : (write layout depth value).toList ++ rest = (write layout depth other).toList ++ rest') :
    SameKind value other := by
  have hvalue := head?_write layout depth value rest
  rw [h, head?_write] at hvalue
  have hinitial : other.initial = value.initial := Option.some.inj hvalue
  cases value <;> cases other <;> simp [initial] at hinitial <;> constructor

/-- The text of a value does not begin with a right bracket. -/
theorem head?_write_ne (layout : Layout) (depth : Nat) (value : Json) (rest : List Char) :
    ((write layout depth value).toList ++ rest).head? ≠ some ']' := by
  intro hhead
  have hvalue := head?_write layout depth value rest
  rw [hhead] at hvalue
  cases value <;> simp [initial, beginning] at hvalue

/-- A field ends where its value does. -/
theorem delimits_writeField {depth : Nat} {field : String × Json}
    (h : Delimits (fun v => (write .oneLine depth v).toList) field.2) :
    Delimits (writeField .oneLine depth) field := by
  intro other rest rest' hrest hrest' heq
  simp only [writeField, List.append_assoc] at heq
  obtain ⟨hname, heq⟩ := quote_append_inj heq
  obtain ⟨hvalue, hsame⟩ := h other.2 rest rest' hrest hrest' (List.append_cancel_left heq)
  exact ⟨Prod.ext hname hvalue, hsame⟩

/-- **A value ends where its text says.**  The induction is on the first value;
the second is of the same kind, since its text begins alike. -/
theorem delimits_write (value : Json) (depth : Nat) :
    Delimits (fun v => (write .oneLine depth v).toList) value := by
  induction value generalizing depth with
  | null =>
      intro other rest rest' _ _ h
      cases sameKind_of_write h
      exact ⟨rfl, List.append_cancel_left h⟩
  | bool b =>
      intro other rest rest' _ _ h
      cases sameKind_of_write h with
      | bool _ b' => cases b <;> cases b' <;> simp_all [write]
  | number n =>
      intro other rest rest' hrest hrest' h
      cases sameKind_of_write h with
      | number _ m =>
          simp only [write_number] at h
          obtain ⟨rfl, hsame⟩ := toDigits_append_inj hrest hrest' h
          exact ⟨rfl, hsame⟩
  | string s =>
      intro other rest rest' _ _ h
      cases sameKind_of_write h with
      | string _ s' =>
          simp only [write] at h
          obtain ⟨rfl, hsame⟩ := quote_append_inj h
          exact ⟨rfl, hsame⟩
  | array items ih =>
      intro other rest rest' _ _ h
      cases sameKind_of_write h with
      | array _ items' =>
          simp only [write_array] at h
          obtain ⟨rfl, hsame⟩ := bracketed_inj (by decide) (by decide) (head?_write_ne _ _)
            (fun item hitem => ih item hitem (depth + 1)) h
          exact ⟨rfl, hsame⟩
  | object fields ih =>
      intro other rest rest' _ _ h
      cases sameKind_of_write h with
      | object _ fields' =>
          simp only [write_object] at h
          obtain ⟨rfl, hsame⟩ := bracketed_inj (by decide) (by decide)
            (by simp [writeField, quote])
            (fun field hfield => delimits_writeField (ih field hfield (depth + 1))) h
          exact ⟨rfl, hsame⟩

/-- **The text on one line determines the value.** -/
theorem compact_inj {a b : Json} : a.compact = b.compact ↔ a = b := by
  refine ⟨fun h => ?_, fun h => by rw [h]⟩
  have htext : a.compact.toList ++ [] = b.compact.toList ++ [] := by rw [h]
  exact (delimits_write a 0 b [] [] (by simp [Stops]) (by simp [Stops]) htext).1

/-! ### Blanks outside of quoted texts -/

/-- Where a reader of a text is. -/
inductive Place where
  /-- Outside of quoted texts. -/
  | outside
  /-- Inside a quoted text. -/
  | inside
  /-- Inside a quoted text, right after a backslash. -/
  | escape
deriving DecidableEq, Repr

/-- Where the reader is after a character. -/
def Place.next : Place → Char → Place
  | outside, c => if c = '"' then inside else outside
  | inside, c => if c = '"' then outside else if c = '\\' then escape else inside
  | escape, _ => inside

/-- A text without the blanks that are outside of quoted texts, read from some
place. -/
def strip : Place → List Char → List Char
  | _, [] => []
  | place, c :: more =>
      if place = .outside ∧ c.isWhitespace then strip (place.next c) more
      else c :: strip (place.next c) more

/-- A text without the blanks that are outside of quoted texts. -/
def withoutBlanks (text : String) : String := String.ofList (strip .outside text.toList)

theorem strip_append (place : Place) (text more : List Char) :
    strip place (text ++ more) = strip place text ++ strip (text.foldl Place.next place) more := by
  induction text generalizing place with
  | nil => rfl
  | cons c text ih =>
      by_cases hblank : place = .outside ∧ c.isWhitespace
      · simp [strip, hblank, ih]
      · simp [strip, hblank, ih]

/-- From outside of quoted texts, the first text is stripped to the second, and
leads outside again. -/
structure StripsTo (text stripped : List Char) : Prop where
  strip_eq : strip .outside text = stripped
  outside : text.foldl Place.next .outside = .outside

theorem StripsTo.append {text stripped more stripped' : List Char} (h : StripsTo text stripped)
    (h' : StripsTo more stripped') : StripsTo (text ++ more) (stripped ++ stripped') where
  strip_eq := by rw [strip_append, h.outside, h.strip_eq, h'.strip_eq]
  outside := by rw [List.foldl_append, h.outside, h'.outside]

theorem stripsTo_nil : StripsTo [] [] := ⟨rfl, rfl⟩

/-- Blanks are left out. -/
theorem stripsTo_blanks {blanks : List Char} (h : ∀ c ∈ blanks, c.isWhitespace = true) :
    StripsTo blanks [] := by
  induction blanks with
  | nil => exact stripsTo_nil
  | cons c blanks ih =>
      rw [List.forall_mem_cons] at h
      have hne : c ≠ '"' := by
        rintro rfl
        exact absurd h.1 (by decide)
      have hfirst : StripsTo [c] [] := ⟨by simp [strip, h.1], by simp [Place.next, hne]⟩
      exact hfirst.append (ih h.2)

/-- Characters that are neither blanks nor quotes stay. -/
theorem stripsTo_self {text : List Char}
    (h : (text.all fun c => !c.isWhitespace && c != '"') = true) : StripsTo text text := by
  induction text with
  | nil => exact stripsTo_nil
  | cons c text ih =>
      simp only [List.all_cons, Bool.and_eq_true, Bool.not_eq_true', bne_iff_ne] at h
      obtain ⟨⟨hblank, hquote⟩, htext⟩ := h
      have hfirst : StripsTo [c] [c] := ⟨by simp [strip, hblank], by simp [Place.next, hquote]⟩
      exact hfirst.append (ih htext)

theorem stripsTo_toDigits (n : Nat) : StripsTo (Nat.toDigits 10 n) (Nat.toDigits 10 n) := by
  refine stripsTo_self (List.all_eq_true.mpr fun c hc => ?_)
  have hdigit := isDigit_of_mem_toDigits c hc
  simp only [Bool.and_eq_true, Bool.not_eq_true', bne_iff_ne]
  refine ⟨?_, ?_⟩
  · by_contra hblank
    simp only [Char.isWhitespace, Bool.not_eq_false, Bool.or_eq_true, decide_eq_true_eq] at hblank
    rcases hblank with ((rfl | rfl) | rfl) | rfl <;> simp at hdigit
  · rintro rfl
    simp at hdigit

/-- Inside a quoted text every character stays, and an escaped quote does not
end the text. -/
theorem strip_escape (c : Char) :
    strip .inside (escape c) = escape c ∧ (escape c).foldl Place.next .inside = .inside := by
  by_cases hc : c ∈ escaped
  · have hall : (escaped.all fun c => decide (strip .inside (escape c) = escape c ∧
        (escape c).foldl Place.next .inside = .inside)) = true := by decide +kernel
    exact of_decide_eq_true (List.all_eq_true.mp hall c hc)
  · have hquote : c ≠ '"' := by
      rintro rfl
      exact hc (by decide)
    have hbackslash : c ≠ '\\' := by
      rintro rfl
      exact hc (by decide)
    rw [escape_of_not_mem hc]
    simp [strip, Place.next, hquote, hbackslash]

/-- Quoted texts stay. -/
theorem stripsTo_quote (s : String) : StripsTo (quote s).toList (quote s).toList := by
  have hinside : ∀ text : List Char, strip .inside (text.flatMap escape) = text.flatMap escape ∧
      (text.flatMap escape).foldl Place.next .inside = .inside := by
    intro text
    induction text with
    | nil => exact ⟨rfl, rfl⟩
    | cons c text ih =>
        obtain ⟨hstrip, hplace⟩ := strip_escape c
        rw [List.flatMap_cons, strip_append, List.foldl_append, hstrip, hplace, ih.1]
        exact ⟨rfl, ih.2⟩
  obtain ⟨hstrip, hplace⟩ := hinside s.toList
  simp only [quote, String.toList_ofList]
  refine ⟨?_, ?_⟩
  · have hquote : ¬ ((.outside : Place) = .outside ∧ ('"').isWhitespace) := by decide
    rw [strip, if_neg hquote, show Place.next .outside '"' = .inside from rfl, strip_append, hstrip,
      hplace]
    rfl
  · rw [List.foldl_cons, show Place.next .outside '"' = .inside from rfl, List.foldl_append, hplace]
    rfl

section Brackets

variable {α : Type} {left right : Char} {lead trail : List Char}
  {write write' : α → List Char} {items : List α}

theorem stripsTo_flatMap_comma (hlead : StripsTo lead [])
    (hitems : ∀ a ∈ items, StripsTo (write a) (write' a)) :
    StripsTo (items.flatMap fun a => ',' :: (lead ++ write a))
      (items.flatMap fun a => ',' :: write' a) := by
  induction items with
  | nil => exact stripsTo_nil
  | cons a items ih =>
      rw [List.forall_mem_cons] at hitems
      have hcomma : StripsTo [','] [','] := stripsTo_self rfl
      have hfirst := hcomma.append (hlead.append hitems.1)
      exact hfirst.append (ih hitems.2)

/-- Things between brackets are stripped one by one. -/
theorem stripsTo_bracketed (hleft : StripsTo [left] [left]) (hright : StripsTo [right] [right])
    (hlead : StripsTo lead []) (htrail : StripsTo trail [])
    (hitems : ∀ a ∈ items, StripsTo (write a) (write' a)) :
    StripsTo (bracketed left right lead trail write items)
      (bracketed left right [] [] write' items) := by
  cases items with
  | nil => exact hleft.append hright
  | cons a more =>
      rw [List.forall_mem_cons] at hitems
      have hinside := (hlead.append hitems.1).append (stripsTo_flatMap_comma hlead hitems.2)
      exact hleft.append ((hinside.append htrail).append hright)

end Brackets

/-- A layout that adds nothing but blanks. -/
structure Layout.Blank (layout : Layout) : Prop where
  newLine : ∀ depth, ∀ c ∈ (layout.newLine depth).toList, c.isWhitespace = true
  colon : ∃ blanks, layout.colon.toList = ':' :: blanks ∧ ∀ c ∈ blanks, c.isWhitespace = true

theorem blank_indented : Layout.indented.Blank where
  newLine depth c hc := by
    simp only [Layout.indented, String.toList_ofList, List.mem_cons, List.mem_replicate] at hc
    rcases hc with rfl | ⟨_, rfl⟩ <;> rfl
  colon := ⟨[' '], rfl, by simp⟩

/-- **Layouts differ by blanks.**  What a layout adds to the text on one line is
left out again. -/
theorem stripsTo_write {layout : Layout} (hlayout : layout.Blank) (value : Json) (depth : Nat) :
    StripsTo (write layout depth value).toList (write .oneLine depth value).toList := by
  have hline : ∀ depth, StripsTo (layout.newLine depth).toList [] :=
    fun depth => stripsTo_blanks (hlayout.newLine depth)
  induction value generalizing depth with
  | null =>
      rw [write, write]
      exact stripsTo_self rfl
  | bool b =>
      cases b <;> (rw [write, write]; exact stripsTo_self rfl)
  | number n =>
      rw [write_number, write_number]
      exact stripsTo_toDigits n
  | string s =>
      rw [write, write]
      exact stripsTo_quote s
  | array items ih =>
      rw [write_array, write_array]
      exact stripsTo_bracketed (stripsTo_self rfl) (stripsTo_self rfl) (hline _) (hline _)
        fun item hitem => ih item hitem (depth + 1)
  | object fields ih =>
      obtain ⟨blanks, hcolon, hblanks⟩ := hlayout.colon
      have hsign : StripsTo [':'] [':'] := stripsTo_self rfl
      have hcolon : StripsTo layout.colon.toList [':'] :=
        hcolon ▸ hsign.append (stripsTo_blanks hblanks)
      rw [write_object, write_object]
      refine stripsTo_bracketed (stripsTo_self rfl) (stripsTo_self rfl) (hline _) (hline _) ?_
      intro field hfield
      exact ((stripsTo_quote field.1).append hcolon).append (ih field hfield (depth + 1))

/-- Without its blanks, the text over several lines is the text on one line. -/
theorem withoutBlanks_pretty (value : Json) : withoutBlanks value.pretty = value.compact := by
  rw [withoutBlanks, pretty, (stripsTo_write blank_indented value 0).strip_eq,
    String.ofList_toList, compact]

-- The blanks of a quoted text stay, also after an escaped quote.
example : withoutBlanks "[\n  \"a b\",\n  \"\\\" \"\n]" = "[\"a b\",\"\\\" \"]" := by decide

/-- **The text over several lines determines the value** too. -/
theorem pretty_inj {a b : Json} : a.pretty = b.pretty ↔ a = b := by
  refine ⟨fun h => ?_, fun h => by rw [h]⟩
  rw [← compact_inj, ← withoutBlanks_pretty, h, withoutBlanks_pretty]

end Json

end TildeLang
