import Mathlib.Data.List.TakeDrop
import BranchingStory.Json.Parser
import BranchingStory.Json.Printer
import BranchingStory.Proofs.Numerals

/-!
# Reading what was printed

A reader undoes a printer.  Escapes stand for the characters that they were written for, digits for
their number, and what stands between brackets for the elements.  So a printed value is read as the
value it was printed from (`Json.parse?_pretty`).

Two kinds of values have no text of their own and are left out: `Json.illFormed` prints as null, and
a number that is not natural keeps whatever text it has.  The other values are *plain*.

The reader takes what it can.  A number would go on into digits that follow it, so each lemma says
what the text may go on with.
-/

namespace BranchingStory.Json

/-- Values that hold nothing but text and natural numbers. -/
inductive Plain : Json → Prop where
  | null : Plain .null
  | bool (b : Bool) : Plain (.bool b)
  | nat (n : Nat) : Plain (.nat n)
  | string (s : String) : Plain (.string s)
  | array {items : List Json} : (∀ v ∈ items, Plain v) → Plain (.array items)
  | object {fields : List (String × Json)} : (∀ field ∈ fields, Plain field.2) →
      Plain (.object fields)

/-- A number that stands before the character could go on with it. -/
def continuesNumber (c : Char) : Bool := c.isDigit || c == '.' || c == 'e' || c == 'E'

/-- A number that stands before the text ends there. -/
def Stops (s : List Char) : Prop := ∀ c ∈ s.head?, continuesNumber c = false

variable {s rest gap : List Char}

/-! ## Strings -/

theorem natOfDigits?_escapeControl : ∀ n < 32,
    natOfDigits? 16 ['0', '0', (n / 16).digitChar, (n % 16).digitChar] = some n := by
  decide

theorem readCodes_escapeControl {c : Char} (hc : c.toNat < 32) (s : List Char) :
    readCodes (escapeControl c ++ s) =
      (readCodes s).map fun (codes, s) => (c.toNat :: codes, s) := by
  have hcode := natOfDigits?_escapeControl _ hc
  cases h : readCodes s <;> simp [escapeControl, readCodes, hcode, h]

theorem readCodes_short {c letter : Char} (hletter : letter ≠ 'u')
    (hc : shortEscape? letter = some c) (s : List Char) :
    readCodes ('\\' :: letter :: s) =
      (readCodes s).map fun (codes, s) => (c.toNat :: codes, s) := by
  rw [readCodes.eq_def]
  cases h : readCodes s <;> simp [hletter, hc, h]

/-- An escape stands for its character. -/
theorem readCodes_escapeChar (c : Char) (s : List Char) : readCodes (escapeChar c ++ s) =
    (readCodes s).map fun (codes, s) => (c.toNat :: codes, s) := by
  -- Seven characters have short escapes.
  fun_cases escapeChar c
  case case8 hcontrol => exact readCodes_escapeControl hcontrol s
  case case9 hquote hbackslash _ _ _ _ _ hcontrol =>
    rw [List.singleton_append, readCodes.eq_def]
    cases h : readCodes s <;> simp [hbackslash, hcontrol, h]
  all_goals
    subst_vars
    exact readCodes_short (by decide) rfl s

theorem readCodes_flatMap_escapeChar (chars rest : List Char) :
    readCodes (chars.flatMap escapeChar ++ '"' :: rest) = some (chars.map Char.toNat, rest) := by
  induction chars with
  | nil => rfl
  | cons c chars ih =>
      rw [List.flatMap_cons, List.append_assoc, readCodes_escapeChar, ih]
      rfl

theorem joinSurrogates?_cons {code : Nat} (hhigh : isHighSurrogate code = false)
    (hlow : isLowSurrogate code = false) (codes : List Nat) :
    joinSurrogates? (code :: codes) = (joinSurrogates? codes).map (Char.ofNat code :: ·) := by
  cases codes with
  | nil => simp [joinSurrogates?, hhigh, hlow]
  | cons next codes => simp [joinSurrogates?, hhigh, hlow]

/-- No character is half of a surrogate pair. -/
theorem joinSurrogates?_map_toNat (chars : List Char) :
    joinSurrogates? (chars.map Char.toNat) = some chars := by
  induction chars with
  | nil => rfl
  | cons c chars ih =>
      have hvalid : c.toNat < 0xD800 ∨ 0xDFFF < c.toNat ∧ c.toNat < 0x110000 := c.valid
      have hhigh : isHighSurrogate c.toNat = false := by
        simp only [isHighSurrogate, Bool.and_eq_false_iff, decide_eq_false_iff_not]
        omega
      have hlow : isLowSurrogate c.toNat = false := by
        simp only [isLowSurrogate, Bool.and_eq_false_iff, decide_eq_false_iff_not]
        omega
      rw [List.map_cons, joinSurrogates?_cons hhigh hlow, ih, Char.ofNat_toNat]
      rfl

theorem quote_append (s : String) (rest : List Char) :
    quote s ++ rest = '"' :: (s.toList.flatMap escapeChar ++ '"' :: rest) := by
  simp [quote]

/-- A string is read as the text that it holds. -/
theorem readString_quote (s : String) (rest : List Char) :
    readString (s.toList.flatMap escapeChar ++ '"' :: rest) = some (some s, rest) := by
  simp [readString, readCodes_flatMap_escapeChar, joinSurrogates?_map_toNat]

/-! ## Numbers -/

theorem readDigits_append {digits : List Char} (hdigits : ∀ c ∈ digits, c.isDigit = true)
    (hrest : Stops rest) : readDigits (digits ++ rest) = (digits, rest) := by
  rw [readDigits, List.span_eq_takeWhile_dropWhile, List.takeWhile_append_of_pos hdigits,
    List.dropWhile_append_of_pos hdigits]
  cases rest with
  | nil => simp
  | cons c rest =>
      have hc := hrest c rfl
      simp only [continuesNumber, Bool.or_eq_false_iff] at hc
      simp [hc]

theorem readInteger_toDigits (n : Nat) (hrest : Stops rest) :
    readInteger (Nat.toDigits 10 n ++ rest) = some (Nat.toDigits 10 n, rest) := by
  -- A zero ends the integer part, so the digits must not start with one.
  by_cases hn : n = 0
  · subst hn
    rfl
  · have hhead := head?_toDigits_ne_zero hn
    have hread := readDigits_append (fun _ => isDigit_of_mem_toDigits (n := n)) hrest
    obtain ⟨d, ds, hdigits, _⟩ := exists_cons_toDigits n
    rw [hdigits] at hhead hread ⊢
    rw [List.cons_append] at hread ⊢
    have hd : ¬ d = '0' := by simpa using hhead
    rw [readInteger, hread]
    simpa using hd

theorem readFraction_of_stops (hrest : Stops rest) : readFraction rest = ([], rest) := by
  cases rest with
  | nil => rfl
  | cons c rest =>
      have hc := hrest c rfl
      simp only [continuesNumber, Bool.or_eq_false_iff, beq_eq_false_iff_ne] at hc
      rw [readFraction]
      simpa using hc.1.1.2

theorem readExponent_of_stops (hrest : Stops rest) : readExponent rest = ([], rest) := by
  cases rest with
  | nil => rfl
  | cons c rest =>
      have hc := hrest c rfl
      simp only [continuesNumber, Bool.or_eq_false_iff, beq_eq_false_iff_ne] at hc
      simp [readExponent, hc]

theorem natOfDecimal_toDigits (n : Nat) : natOfDecimal (Nat.toDigits 10 n) = n := by
  have hfold := Nat.ofDigitChars_toDigits (b := 10) (n := n) (by decide) (by decide)
  rw [Nat.ofDigitChars] at hfold
  simpa only [natOfDecimal, Nat.mul_comm] using hfold

/-- Digits are read as the number that they write. -/
theorem readNumber_repr (n : Nat) (hrest : Stops rest) :
    readNumber (n.repr.toList ++ rest) = some (.natural n, rest) := by
  have hinteger := readInteger_toDigits n hrest
  obtain ⟨d, ds, hdigits, hd⟩ := exists_cons_toDigits n
  have hsign : ∀ s, Nat.toDigits 10 n ++ rest ≠ '-' :: s := by
    intro s h
    rw [hdigits, List.cons_append, List.cons.injEq] at h
    exact absurd (h.1 ▸ hd) (by decide)
  rw [Nat.toList_repr, readNumber, hinteger]
  · simp [readFraction_of_stops hrest, readExponent_of_stops hrest, natOfDecimal_toDigits]
  · exact hsign

/-! ## Lists -/

theorem intercalate_map_cons_cons {α : Type} (write : α → List Char) (a b : α) (as : List α) :
    List.intercalate [','] ((a :: b :: as).map write) =
      write a ++ ',' :: List.intercalate [','] ((b :: as).map write) := by
  rw [List.map_cons, List.map_cons, List.intercalate_cons_cons, List.append_assoc]
  rfl

theorem mapM_map_eq_some {α β : Type} {f : α → β} {g : β → Option α} {as : List α}
    (h : ∀ a ∈ as, g (f a) = some a) : (as.map f).mapM g = some as := by
  induction as with
  | nil => rfl
  | cons a as ih =>
      obtain ⟨ha, has⟩ := List.forall_mem_cons.mp h
      rw [List.map_cons, List.mapM_cons, ha, ih has]
      rfl

/-- An element of an array as it is printed. -/
def Style.item (style : Style) (depth : Nat) (v : Json) : List Char :=
  style.lineBreak depth ++ v.print style depth

/-- A field of an object as it is printed. -/
def Style.field (style : Style) (depth : Nat) (field : String × Json) : List Char :=
  style.lineBreak depth ++ (quote field.1 ++ (style.colon ++ field.2.print style depth))

theorem printItems_eq (style : Style) (depth : Nat) (items : List Json) :
    printItems style depth items = List.intercalate [','] (items.map (style.item depth)) := by
  induction items with
  | nil => rfl
  | cons v items ih =>
      cases items with
      | nil => simp [printItems, Style.item]
      | cons w items =>
          rw [printItems, ih, intercalate_map_cons_cons, Style.item]
          exact List.cons_ne_nil w items

theorem printFields_eq (style : Style) (depth : Nat) (fields : List (String × Json)) :
    printFields style depth fields = List.intercalate [','] (fields.map (style.field depth)) := by
  induction fields with
  | nil => rfl
  | cons field fields ih =>
      cases fields with
      | nil => simp [printFields, Style.field]
      | cons next fields =>
          rw [printFields, ih, intercalate_map_cons_cons, Style.field]
          · simp
          · exact List.cons_ne_nil next fields

/-- What a list writes is as long as each of its elements and has a comma for each but one. -/
theorem length_le_length_intercalate (pieces : List (List Char)) :
    pieces.length ≤ (List.intercalate [','] pieces).length + 1 ∧
      ∀ piece ∈ pieces, piece.length ≤ (List.intercalate [','] pieces).length := by
  induction pieces with
  | nil => simp
  | cons piece pieces ih =>
      cases pieces with
      | nil => simp
      | cons next pieces =>
          rw [List.intercalate_cons_cons, List.forall_mem_cons]
          simp only [List.length_append, List.length_cons, List.length_nil] at ih ⊢
          exact ⟨by omega, by omega, fun p hp => (ih.2 p hp).trans (by omega)⟩

theorem skipSpace_append (hgap : ∀ c ∈ gap, isSpace c = true) (s : List Char) :
    skipSpace (gap ++ s) = skipSpace s :=
  List.dropWhile_append_of_pos hgap

theorem skipSpace_cons {c : Char} (hc : isSpace c = false) (s : List Char) :
    skipSpace (c :: s) = c :: s :=
  List.dropWhile_cons_of_neg (by simp [hc])

theorem stops_cons {c : Char} (hc : continuesNumber c = false) (s : List Char) :
    Stops (c :: s) := by
  rintro _ ⟨⟩
  exact hc

theorem continuesNumber_of_isSpace {c : Char} (hc : isSpace c = true) :
    continuesNumber c = false := by
  simp only [isSpace, Bool.or_eq_true, beq_iff_eq] at hc
  rcases hc with ((rfl | rfl) | rfl) | rfl <;> rfl

theorem stops_append (hgap : ∀ c ∈ gap, isSpace c = true) (hs : Stops s) : Stops (gap ++ s) := by
  cases gap with
  | nil => exact hs
  | cons c gap => exact stops_cons (continuesNumber_of_isSpace (hgap c List.mem_cons_self)) _

section Elements

variable {α β : Type} {item : Reader β} {close : Char} {write : α → List Char} {f : α → β}
  {as : List α} (hgap : ∀ c ∈ gap, isSpace c = true) (hspace : isSpace close = false)
  (hcomma : close ≠ ',') (hstops : Stops (close :: rest)) (has : as ≠ [])
  (hitem : ∀ a ∈ as, ∀ t, Stops t → item (write a ++ t) = some (f a, t))

include hgap hspace hcomma hstops has hitem

/-- The elements up to the closing bracket are read, if each is read before whatever follows it. -/
theorem readElements_intercalate {count : Nat} (hcount : as.length ≤ count) :
    readElements item close count
        (List.intercalate [','] (as.map write) ++ (gap ++ close :: rest)) =
      some (as.map f, rest) := by
  induction as generalizing count with
  | nil => exact absurd rfl has
  | cons a as ih =>
      obtain ⟨count, rfl⟩ := Nat.exists_eq_add_one.mpr (Nat.zero_lt_of_lt hcount)
      obtain ⟨ha, hitems⟩ := List.forall_mem_cons.mp hitem
      cases as with
      | nil =>
          have hread := ha _ (stops_append hgap hstops)
          simp [readElements, hread, skipSpace_append hgap, skipSpace_cons hspace, hcomma]
      | cons b as =>
          have hread := ih (List.cons_ne_nil b as) hitems (Nat.le_of_succ_le_succ hcount)
          rw [intercalate_map_cons_cons, List.append_assoc, List.cons_append, readElements,
            ha _ (stops_cons rfl _)]
          simp only [Option.bind_eq_bind, Option.bind_some, skipSpace_cons (c := ',') rfl, if_true,
            hread]
          rfl

/-- A list is read up to its closing bracket.  No element starts with the bracket, so an element
tells the list from an empty one. -/
theorem readList_intercalate
    (hclose : ∀ s, (∀ c ∈ (skipSpace s).head?, c = close) → item s = none) :
    readList item close (List.intercalate [','] (as.map write) ++ (gap ++ close :: rest)) =
      some (as.map f, rest) := by
  have hlength := (length_le_length_intercalate (as.map write)).1
  rw [List.length_map] at hlength
  have hread : ∀ count, as.length ≤ count → readElements item close count
      (List.intercalate [','] (as.map write) ++ (gap ++ close :: rest)) = some (as.map f, rest) :=
    fun _ => readElements_intercalate hgap hspace hcomma hstops has hitem
  -- The text of the elements does not start with the bracket, since no element is read off a text
  -- that does.
  have hsome : item (List.intercalate [','] (as.map write) ++ (gap ++ close :: rest)) ≠ none := by
    intro hnone
    have hnonempty := hread (as.length + 1) (Nat.le_succ _)
    rw [readElements, hnone] at hnonempty
    cases hnonempty
  rw [readList]
  cases hfront : skipSpace (List.intercalate [','] (as.map write) ++ (gap ++ close :: rest)) with
  | nil => exact absurd (hclose _ (by simp [hfront])) hsome
  | cons c t =>
      have hc : c ≠ close := fun hc => hsome (hclose _ (by simp [hfront, hc]))
      simp only [hc, if_false]
      exact hread _ (by simp only [List.length_append, List.length_cons]; omega)

end Elements

/-! ## Values -/

/-- White space stands where it may be skipped. -/
structure Style.Spaced (style : Style) : Prop where
  lineBreak : ∀ depth, ∀ c ∈ style.lineBreak depth, isSpace c = true
  colon : ∃ gap, style.colon = ':' :: gap ∧ ∀ c ∈ gap, isSpace c = true

theorem Style.spaced_pretty : Style.pretty.Spaced where
  lineBreak depth := by
    intro c hc
    rcases List.mem_cons.mp hc with rfl | hc
    · rfl
    · exact List.eq_of_mem_replicate hc ▸ rfl
  colon := ⟨[' '], rfl, by simp [isSpace]⟩

variable {style : Style} {depth level : Nat}

theorem read_append (hgap : ∀ c ∈ gap, isSpace c = true) (s : List Char) :
    read depth (gap ++ s) = read depth s := by
  cases depth with
  | zero => rfl
  | succ depth => rw [read, read, skipSpace_append hgap]

theorem read_number (n : Nat) (hrest : Stops rest) :
    read (depth + 1) (n.repr.toList ++ rest) = some (.nat n, rest) := by
  have hread := readNumber_repr n hrest
  obtain ⟨d, ds, hdigits, hd⟩ := exists_cons_toDigits n
  rw [Nat.toList_repr, hdigits, List.cons_append] at hread ⊢
  have hspace : isSpace d = false := by
    rw [Bool.eq_false_iff]
    intro hspace
    have hc := continuesNumber_of_isSpace hspace
    simp [continuesNumber, hd] at hc
  rw [read, skipSpace_cons hspace]
  split
  case h_7 => rw [hread]; rfl
  all_goals
    rename_i heq
    obtain ⟨rfl, _⟩ := List.cons.inj heq
    exact absurd hd (by decide)

/-- No value starts with a bracket that closes. -/
theorem read_eq_none (hs : ∀ c ∈ (skipSpace s).head?, c = ']') : read depth s = none := by
  cases depth with
  | zero => rfl
  | succ depth =>
      rw [read]
      cases hfront : skipSpace s with
      | nil => rfl
      | cons c t =>
          obtain rfl := hs c (by rw [hfront]; rfl)
          rfl

theorem readField_eq_none (hs : ∀ c ∈ (skipSpace s).head?, c = '\x7d') :
    readField (read depth) s = none := by
  rw [readField]
  cases hfront : skipSpace s with
  | nil => rfl
  | cons c t =>
      obtain rfl := hs c (by rw [hfront]; rfl)
      rfl

/-- A field is read if its value is. -/
theorem readField_field (hstyle : style.Spaced) {field : String × Json} {t : List Char}
    (hvalue : read depth (field.2.print style level ++ t) = some (field.2, t)) :
    readField (read depth) (style.field level field ++ t) = some ((some field.1, field.2), t) := by
  obtain ⟨gap, hcolon, hgap⟩ := hstyle.colon
  simp only [readField, Style.field, List.append_assoc, hcolon, quote_append,
    skipSpace_append (hstyle.lineBreak level), skipSpace_cons (c := '"') rfl, List.cons_append,
    readString_quote, skipSpace_cons (c := ':') rfl, Option.bind_eq_bind, Option.bind_some,
    read_append hgap, hvalue]
  rfl

theorem ofFields_map_some (fields : List (String × Json)) :
    ofFields (fields.map fun field => (some field.1, field.2)) = object fields := by
  have htext : (fields.map fun field => (some field.1, field.2)).mapM textField? = some fields :=
    mapM_map_eq_some fun _ _ => rfl
  rw [ofFields, htext]
  rfl

theorem print_array_append {items : List Json} (h : items ≠ []) (rest : List Char) :
    (array items).print style level ++ rest =
      '[' :: (List.intercalate [','] (items.map (style.item (level + 1)))
        ++ (style.lineBreak level ++ ']' :: rest)) := by
  rw [print, printItems_eq]
  · simp
  · exact h

theorem print_object_append {fields : List (String × Json)} (h : fields ≠ []) (rest : List Char) :
    (object fields).print style level ++ rest =
      '\x7b' :: (List.intercalate [','] (fields.map (style.field (level + 1)))
        ++ (style.lineBreak level ++ '\x7d' :: rest)) := by
  rw [print, printFields_eq]
  · simp
  · exact h

theorem length_print_lt_array {items : List Json} {v : Json} (hv : v ∈ items) :
    (v.print style (level + 1)).length < ((array items).print style level).length := by
  have hitem := (length_le_length_intercalate _).2 _
    (List.mem_map_of_mem (f := style.item (level + 1)) hv)
  rw [← List.append_nil ((array items).print style level),
    print_array_append (List.ne_nil_of_mem hv)]
  simp only [Style.item, List.length_append, List.length_cons] at hitem ⊢
  omega

theorem length_print_lt_object {fields : List (String × Json)} {field : String × Json}
    (hfield : field ∈ fields) :
    (field.2.print style (level + 1)).length < ((object fields).print style level).length := by
  have hpiece := (length_le_length_intercalate _).2 _
    (List.mem_map_of_mem (f := style.field (level + 1)) hfield)
  rw [← List.append_nil ((object fields).print style level),
    print_object_append (List.ne_nil_of_mem hfield)]
  simp only [Style.field, List.length_append, List.length_cons] at hpiece ⊢
  omega

theorem read_array (hstyle : style.Spaced) {items : List Json}
    (hitems : ∀ v ∈ items, ∀ t, Stops t →
      read depth (v.print style (level + 1) ++ t) = some (v, t)) :
    read (depth + 1) ((array items).print style level ++ rest) = some (array items, rest) := by
  by_cases hempty : items = []
  · subst hempty
    simp [read, print, skipSpace, isSpace, readList]
  · have hitem : ∀ v ∈ items, ∀ t, Stops t →
        read depth (style.item (level + 1) v ++ t) = some (id v, t) := by
      intro v hv t ht
      rw [Style.item, List.append_assoc, read_append (hstyle.lineBreak _), hitems v hv t ht, id]
    have hlist := readList_intercalate (hstyle.lineBreak level) rfl (by decide)
      (stops_cons (c := ']') rfl rest) hempty hitem fun s hs => read_eq_none hs
    rw [print_array_append hempty, read, skipSpace_cons rfl]
    simp [hlist]

theorem read_object (hstyle : style.Spaced) {fields : List (String × Json)}
    (hfields : ∀ field ∈ fields, ∀ t, Stops t →
      read depth (field.2.print style (level + 1) ++ t) = some (field.2, t)) :
    read (depth + 1) ((object fields).print style level ++ rest) = some (object fields, rest) := by
  by_cases hempty : fields = []
  · subst hempty
    simp [read, print, skipSpace, isSpace, readList, ofFields]
  · have hlist := readList_intercalate (hstyle.lineBreak level) rfl (by decide)
      (stops_cons (c := '\x7d') rfl rest) hempty
      (fun field hfield t ht => readField_field hstyle (hfields field hfield t ht))
      fun s hs => readField_eq_none hs
    rw [print_object_append hempty, read, skipSpace_cons rfl]
    simp [hlist, ofFields_map_some]

/-- A printed value is read as the value, whatever follows it. -/
theorem read_print (hstyle : style.Spaced) {v : Json} (hv : v.Plain)
    (hdepth : (v.print style level).length < depth) (hrest : Stops rest) :
    read depth (v.print style level ++ rest) = some (v, rest) := by
  -- The text of a value is longer than those of the values in it, so its length bounds the depth.
  induction depth generalizing v level rest with
  | zero => exact absurd hdepth (Nat.not_lt_zero _)
  | succ depth ih =>
      cases hv with
      | null => simp [read, print, skipSpace, isSpace]
      | bool b => cases b <;> simp [read, print, skipSpace, isSpace]
      | nat n => exact read_number n hrest
      | string s =>
          simp [print, quote_append, read, skipSpace_cons (c := '"') rfl, readString_quote]
      | array hitems =>
          refine read_array hstyle fun v hv t ht => ih (hitems v hv) ?_ ht
          exact (length_print_lt_array hv).trans_le (Nat.le_of_lt_succ hdepth)
      | object hfields =>
          refine read_object hstyle fun field hfield t ht => ih (hfields field hfield) ?_ ht
          exact (length_print_lt_object hfield).trans_le (Nat.le_of_lt_succ hdepth)

/-- The text of a plain value is read as the value, also with white space after it. -/
theorem parse?_print_append (hstyle : style.Spaced) {v : Json} (hv : v.Plain)
    (hgap : ∀ c ∈ gap, isSpace c = true) :
    parse? (String.ofList (v.print style 0 ++ gap)) = some v := by
  have hnil : Stops [] := by
    rintro _ ⟨⟩
  have hstops : Stops gap := by
    have happend := stops_append hgap hnil
    rwa [List.append_nil] at happend
  have hdepth : (v.print style 0).length < (v.print style 0 ++ gap).length + 1 := by
    rw [List.length_append]
    omega
  have hread : read ((v.print style 0 ++ gap).length + 1) (v.print style 0 ++ gap) =
      some (v, gap) := read_print hstyle hv hdepth hstops
  have hrest : skipSpace gap = [] := by
    rw [← List.append_nil gap, skipSpace_append hgap]
    rfl
  simp only [parse?, String.toList_ofList, hread, Option.bind_eq_bind, Option.bind_some, hrest]
  rfl

theorem parse?_print (hstyle : style.Spaced) {v : Json} (hv : v.Plain) :
    parse? (String.ofList (v.print style 0)) = some v := by
  have hgap : ∀ c ∈ ([] : List Char), isSpace c = true := by simp
  have hparse := parse?_print_append hstyle hv hgap
  rwa [List.append_nil] at hparse

/-- The text of a plain value is read as the value, with a line for each element. -/
theorem parse?_pretty {v : Json} (hv : v.Plain) : parse? v.pretty = some v :=
  parse?_print Style.spaced_pretty hv

/-- The text of a plain value is read as the value, also with the end of the line after it. -/
theorem parse?_pretty_newline {v : Json} (hv : v.Plain) : parse? (v.pretty ++ "\n") = some v := by
  have hgap : ∀ c ∈ ['\n'], isSpace c = true := List.forall_mem_singleton.mpr rfl
  have hparse := parse?_print_append Style.spaced_pretty hv hgap
  rwa [String.ofList_append] at hparse

end BranchingStory.Json
