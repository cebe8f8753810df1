import PoolLedger.Json.Parser

/-!
# Reading compact text back

The reader turns the compact text of a value back into the value.  Each reader
is shown to take the text of its part off the front of any continuation; only
after a number the continuation matters, since digits, a fraction or an
exponent would be read on.
-/

namespace PoolLedger

namespace Json

/-! ## Strings -/

/-- A character is written with a short escape, with its code unit, or as it is. -/
theorem escape_cases (char : Char) :
    (∃ letter, shortEscape? letter = some char ∧ escape char = ['\\', letter]) ∨
      (char.toNat < 32 ∧ escape char =
        ['\\', 'u', '0', '0', Hex.digit (char.toNat / 16), Hex.digit (char.toNat % 16)]) ∨
      (char ≠ '"' ∧ char ≠ '\\' ∧ 32 ≤ char.toNat ∧ escape char = [char]) := by
  unfold escape
  split
  · subst char
    exact .inl ⟨'"', rfl, rfl⟩
  split
  · subst char
    exact .inl ⟨'\\', rfl, rfl⟩
  split
  · subst char
    exact .inl ⟨'b', rfl, rfl⟩
  split
  · subst char
    exact .inl ⟨'t', rfl, rfl⟩
  split
  · subst char
    exact .inl ⟨'n', rfl, rfl⟩
  split
  · subst char
    exact .inl ⟨'f', rfl, rfl⟩
  split
  · subst char
    exact .inl ⟨'r', rfl, rfl⟩
  split
  · rename_i control
    exact .inr (.inl ⟨control, rfl⟩)
  · rename_i notQuote notBackslash _ _ _ _ _ notControl
    exact .inr (.inr ⟨notQuote, notBackslash, Nat.le_of_not_lt notControl, rfl⟩)

theorem readUnits_short {letter char : Char} (short : shortEscape? letter = some char)
    (rest : List Char) :
    readUnits ('\\' :: letter :: rest) =
      (readUnits rest).map fun read => (.char char :: read.1, read.2) := by
  have notCode : letter ≠ 'u' := by
    rintro rfl
    cases short
  rw [readUnits.eq_3 letter rest (fun _ _ _ _ _ isCode _ => notCode isCode), short]
  cases readUnits rest <;> rfl

theorem readUnits_code {code : Nat} (below : code < 32) (rest : List Char) :
    readUnits
        ('\\' :: 'u' :: '0' :: '0' :: Hex.digit (code / 16) :: Hex.digit (code % 16) :: rest) =
      (readUnits rest).map fun read => (.code code :: read.1, read.2) := by
  have table : ∀ code < 32,
      codeUnit? '0' '0' (Hex.digit (code / 16)) (Hex.digit (code % 16)) = some code := by
    decide
  rw [readUnits.eq_2, table code below]
  cases readUnits rest <;> rfl

theorem readUnits_plain {char : Char} (notQuote : char ≠ '"') (notBackslash : char ≠ '\\')
    (printable : 32 ≤ char.toNat) (rest : List Char) :
    readUnits (char :: rest) =
      (readUnits rest).map fun read => (.char char :: read.1, read.2) := by
  rw [readUnits.eq_4 char rest notQuote (fun _ _ _ _ _ same _ => notBackslash same)
    (fun _ _ same _ => notBackslash same), if_neg (by simp [notBackslash, printable])]
  cases readUnits rest <;> rfl

/-- A code unit below the surrogates stands for a character of its own. -/
theorem charsOfUnits_code {code : Nat} (below : code < 0xd800) (units : List StringUnit) :
    charsOfUnits (.code code :: units) = (charsOfUnits units).map (Char.ofNat code :: ·) := by
  have notHigh : isHighSurrogate code = false := by
    simp only [isHighSurrogate, Bool.and_eq_false_iff, decide_eq_false_iff_not]
    omega
  have notLow : isLowSurrogate code = false := by
    simp only [isLowSurrogate, Bool.and_eq_false_iff, decide_eq_false_iff_not]
    omega
  cases units with
  | nil => simp [charsOfUnits, notHigh, notLow]
  | cons unit units => cases unit <;> simp [charsOfUnits, notHigh, notLow]

/-- What is written for a character is read as one unit, which stands for the character. -/
theorem exists_unit_of_escape (char : Char) :
    ∃ unit, (∀ rest, readUnits (escape char ++ rest) =
        (readUnits rest).map fun read => (unit :: read.1, read.2)) ∧
      ∀ units, charsOfUnits (unit :: units) = (charsOfUnits units).map (char :: ·) := by
  rcases escape_cases char with ⟨letter, short, written⟩ | ⟨control, written⟩ |
    ⟨notQuote, notBackslash, printable, written⟩
  · rw [written]
    exact ⟨.char char, readUnits_short short, fun _ => rfl⟩
  · refine ⟨.code char.toNat, fun rest => ?_, fun units => ?_⟩
    · rw [written]
      exact readUnits_code control rest
    · rw [charsOfUnits_code (by omega), Char.ofNat_toNat]
  · rw [written]
    exact ⟨.char char, readUnits_plain notQuote notBackslash printable, fun _ => rfl⟩

theorem exists_units_of_escapes (chars rest : List Char) :
    ∃ units, readUnits (chars.flatMap escape ++ '"' :: rest) = some (units, rest) ∧
      charsOfUnits units = some chars := by
  induction chars with
  | nil => exact ⟨[], rfl, rfl⟩
  | cons char chars ih =>
      obtain ⟨units, read, spells⟩ := ih
      obtain ⟨unit, readUnit, spellsChar⟩ := exists_unit_of_escape char
      refine ⟨unit :: units, ?_, ?_⟩
      · rw [List.flatMap_cons, List.append_assoc, readUnit, read]
        rfl
      · rw [spellsChar, spells]
        rfl

/-- The text of a string starts with a quote and is read back after it. -/
theorem exists_renderString (text : Option String) :
    ∃ body, renderString text = '"' :: body ∧
      ∀ rest, readString (body ++ rest) = some (text, rest) := by
  cases text with
  | none => exact ⟨_, rfl, fun rest => rfl⟩
  | some text =>
      refine ⟨_, rfl, fun rest => ?_⟩
      obtain ⟨units, read, spells⟩ := exists_units_of_escapes text.toList rest
      rw [List.append_assoc, List.singleton_append, readString, read]
      simp [spells]

/-! ## Numbers -/

/-- A continuation that does not carry a number on. -/
def EndsNumber (rest : List Char) : Prop :=
  ∀ char ∈ rest.head?, isDigit char = false ∧ char ≠ '.' ∧ char ≠ 'e' ∧ char ≠ 'E'

theorem isDigit_of_mem_digits {number : Nat} {char : Char} (member : char ∈ digits number) :
    isDigit char = true := by
  have isDecimal := Nat.isDigit_of_mem_toDigits (by decide) (by decide) member
  rw [Char.isDigit_iff_toNat] at isDecimal
  simpa [isDigit, Char.le_def, UInt32.le_iff_toNat_le] using isDecimal

theorem ofDigits_digits (number : Nat) : ofDigits (digits number) = number := by
  have decimal : Nat.ofDigitChars 10 (Nat.toDigits 10 number) 0 = number :=
    Nat.ofDigitChars_ten_toDigits
  rwa [Nat.ofDigitChars_eq_foldl] at decimal

/-- Only zero is written with a leading zero. -/
theorem head?_digits_ne_zero {number : Nat} (positive : 0 < number) :
    (digits number).head? ≠ some '0' := by
  induction number using Nat.strongRecOn with
  | _ number ih =>
      rw [digits, Nat.toDigits_eq_if (by decide)]
      split
      · rename_i below
        have table : ∀ digit < 10, 0 < digit → some digit.digitChar ≠ some '0' := by decide
        exact table number below positive
      · rename_i notBelow
        have head := ih (number / 10) (by omega) (by omega)
        obtain ⟨first, others, split⟩ := List.exists_cons_of_ne_nil
          (Nat.toDigits_ne_nil (n := number / 10) (b := 10))
        rw [digits, split] at head
        rw [split]
        exact head

section Number

variable {rest : List Char}

theorem takeWhile_digits (number : Nat) (ends : EndsNumber rest) :
    (digits number ++ rest).takeWhile isDigit = digits number := by
  rw [List.takeWhile_append_of_pos fun _ member => isDigit_of_mem_digits member]
  cases rest with
  | nil => simp
  | cons char rest => simp [(ends char rfl).1]

theorem dropWhile_digits (number : Nat) (ends : EndsNumber rest) :
    (digits number ++ rest).dropWhile isDigit = rest := by
  rw [List.dropWhile_append_of_pos fun _ member => isDigit_of_mem_digits member]
  cases rest with
  | nil => rfl
  | cons char rest => simp [(ends char rfl).1]

theorem readFraction_of_ends (ends : EndsNumber rest) : readFraction rest = some (false, rest) := by
  apply readFraction.eq_2
  rintro others rfl
  exact (ends '.' rfl).2.1 rfl

theorem readExponent_of_ends (ends : EndsNumber rest) : readExponent rest = some (false, rest) := by
  have notLower : ∀ others, rest ≠ 'e' :: others := by
    rintro others rfl
    exact (ends 'e' rfl).2.2.1 rfl
  have notUpper : ∀ others, rest ≠ 'E' :: others := by
    rintro others rfl
    exact (ends 'E' rfl).2.2.2 rfl
  exact readExponent.eq_7 rest (fun _ => notLower _) (fun _ => notLower _) (fun _ => notUpper _)
    (fun _ => notUpper _) notLower notUpper

theorem readMagnitude_digits (negative : Bool) (number : Nat) (ends : EndsNumber rest) :
    readMagnitude negative (digits number ++ rest) = some (integer negative number, rest) := by
  have notEmpty : (digits number).isEmpty = false :=
    List.isEmpty_eq_false_iff.mpr Nat.toDigits_ne_nil
  have canonical : ((digits number).head? == some '0' && decide ((digits number).length > 1)) =
      false := by
    rcases Nat.eq_zero_or_pos number with rfl | positive
    · rfl
    · simp [head?_digits_ne_zero positive]
  rw [readMagnitude, takeWhile_digits number ends, dropWhile_digits number ends, notEmpty,
    canonical, readFraction_of_ends ends, Option.bind_eq_bind]
  simp [readExponent_of_ends ends, ofDigits_digits]

end Number

/-! ## Values -/

theorem endsNumber_nil : EndsNumber [] :=
  fun _ none => nomatch none

theorem endsNumber_cons {char : Char} (rest : List Char)
    (ends : isDigit char = false ∧ char ≠ '.' ∧ char ≠ 'e' ∧ char ≠ 'E') :
    EndsNumber (char :: rest) := by
  rintro _ ⟨⟩
  exact ends

theorem endsNumber_renderItems (items : List Json) (rest : List Char) :
    EndsNumber (renderItems items ++ rest) := by
  cases items <;> exact endsNumber_cons _ (by decide)

theorem endsNumber_renderMembers (members : List (Option String × Json)) (rest : List Char) :
    EndsNumber (renderMembers members ++ rest) := by
  rcases members with _ | ⟨⟨key, value⟩, members⟩ <;> exact endsNumber_cons _ (by decide)

theorem exists_digits (number : Nat) :
    ∃ head tail, digits number = head :: tail ∧ isDigit head = true := by
  obtain ⟨head, tail, written⟩ := List.exists_cons_of_ne_nil
    (Nat.toDigits_ne_nil (n := number) (b := 10))
  have member : head ∈ digits number := by simp [digits, written]
  exact ⟨head, tail, written, isDigit_of_mem_digits member⟩

theorem not_isBlank_of_isDigit {char : Char} (digit : isDigit char = true) :
    isBlank char = false := by
  simp only [isBlank, Bool.or_eq_false_iff, decide_eq_false_iff_not]
  refine ⟨⟨⟨?_, ?_⟩, ?_⟩, ?_⟩ <;> rintro rfl <;> cases digit

/-- The text of a value starts with a character that is no blank and closes no array. -/
theorem exists_renderChars (value : Json) :
    ∃ head tail, value.renderChars = head :: tail ∧ isBlank head = false ∧ head ≠ ']' := by
  cases value with
  | null => exact ⟨_, _, rfl, rfl, by decide⟩
  | bool value => cases value <;> exact ⟨_, _, rfl, rfl, by decide⟩
  | integer negative magnitude =>
      cases negative with
      | true => exact ⟨_, _, rfl, rfl, by decide⟩
      | false =>
          obtain ⟨head, tail, written, digit⟩ := exists_digits magnitude
          refine ⟨head, tail, written, not_isBlank_of_isDigit digit, ?_⟩
          rintro rfl
          cases digit
  | inexact => exact ⟨_, _, rfl, rfl, by decide⟩
  | string text =>
      obtain ⟨body, written, _⟩ := exists_renderString text
      exact ⟨_, _, written, rfl, by decide⟩
  | array items => cases items <;> exact ⟨_, _, rfl, rfl, by decide⟩
  | object members => cases members <;> exact ⟨_, _, rfl, rfl, by decide⟩

theorem skipBlanks_cons {head : Char} (visible : isBlank head = false) (tail : List Char) :
    skipBlanks (head :: tail) = head :: tail := by
  rw [skipBlanks, List.dropWhile_cons_of_neg (by simp [visible])]

theorem readValue_digit (fuel : Nat) {head : Char} (tail : List Char)
    (digit : isDigit head = true) :
    readValue (fuel + 1) (head :: tail) = readMagnitude false (head :: tail) := by
  rw [readValue, skipBlanks_cons (not_isBlank_of_isDigit digit)]
  -- a digit starts none of the other forms, and no minus comes before it
  split
  case h_7 =>
    apply readNumber.eq_2
    rintro _ ⟨⟩
    cases digit
  all_goals
    rename_i same
    obtain ⟨rfl, _⟩ := List.cons.inj same
    cases digit

theorem readValue_integer (fuel : Nat) (negative : Bool) (magnitude : Nat) {rest : List Char}
    (ends : EndsNumber rest) :
    readValue (fuel + 1) ((integer negative magnitude).renderChars ++ rest) =
      some (integer negative magnitude, rest) := by
  cases negative with
  | true => exact readMagnitude_digits true magnitude ends
  | false =>
      obtain ⟨head, tail, written, digit⟩ := exists_digits magnitude
      have read := readMagnitude_digits false magnitude ends
      rw [written] at read
      rw [renderChars, written]
      exact (readValue_digit fuel _ digit).trans read

theorem readFraction_zero {rest : List Char} (ends : EndsNumber rest) :
    readFraction ('.' :: '0' :: rest) = some (true, rest) := by
  have zero : '0' :: rest = digits 0 ++ rest := rfl
  rw [readFraction, zero, takeWhile_digits 0 ends, dropWhile_digits 0 ends]
  rfl

theorem readValue_inexact (fuel : Nat) {rest : List Char} (ends : EndsNumber rest) :
    readValue (fuel + 1) (inexact.renderChars ++ rest) = some (inexact, rest) := by
  have whole : ('0' :: '.' :: '0' :: rest).takeWhile isDigit = ['0'] := rfl
  have after : ('0' :: '.' :: '0' :: rest).dropWhile isDigit = '.' :: '0' :: rest := rfl
  have digit : isDigit '0' = true := rfl
  rw [renderChars, List.cons_append, readValue_digit fuel _ digit, List.cons_append,
    List.singleton_append, readMagnitude, whole, after, readFraction_zero ends]
  simp [readExponent_of_ends ends]

theorem readValue_string (fuel : Nat) (text : Option String) (rest : List Char) :
    readValue (fuel + 1) (renderString text ++ rest) = some (string text, rest) := by
  obtain ⟨body, written, read⟩ := exists_renderString text
  rw [written, List.cons_append, readValue, skipBlanks_cons rfl]
  simp [read]

/-- A bracket that no bracket follows opens items. -/
theorem readValue_array (fuel : Nat) (item : Json) (rest : List Char) :
    readValue (fuel + 1) ('[' :: (item.renderChars ++ rest)) =
      (readItems fuel (item.renderChars ++ rest)).map fun read => (array read.1, read.2) := by
  obtain ⟨head, tail, written, visible, notClose⟩ := exists_renderChars item
  rw [written, List.cons_append, readValue, skipBlanks_cons rfl]
  simp only [skipBlanks_cons visible]
  split
  · rename_i same
    exact absurd (List.cons.inj same).1 notClose
  · rfl

theorem readValue_object (fuel : Nat) (key : Option String) (rest : List Char) :
    readValue (fuel + 1) ('\x7b' :: (renderString key ++ rest)) =
      (readMembers fuel (renderString key ++ rest)).map fun read => (object read.1, read.2) := by
  obtain ⟨body, written, _⟩ := exists_renderString key
  rw [written, List.cons_append, readValue, skipBlanks_cons rfl]
  simp only [skipBlanks_cons (show isBlank '"' = false from rfl)]
  rfl

/-- With this fuel, whatever has a text at most half as long is read back from it: two calls lie
between the start of a value and that of a value inside it. -/
structure ReadsBack (fuel : Nat) : Prop where
  value : ∀ (value : Json) (rest : List Char), 2 * value.renderChars.length ≤ fuel →
    EndsNumber rest → readValue fuel (value.renderChars ++ rest) = some (value, rest)
  items : ∀ (item : Json) (items : List Json) (rest : List Char),
    2 * (item.renderChars ++ renderItems items).length < fuel →
      readItems fuel (item.renderChars ++ (renderItems items ++ rest)) = some (item :: items, rest)
  members : ∀ (key : Option String) (value : Json) (members : List (Option String × Json))
    (rest : List Char),
    2 * (renderString key ++ ':' :: (value.renderChars ++ renderMembers members)).length < fuel →
      readMembers fuel
          (renderString key ++ ':' :: (value.renderChars ++ (renderMembers members ++ rest))) =
        some ((key, value) :: members, rest)

section Step

variable {fuel : Nat}

theorem ReadsBack.value_succ (reads : ReadsBack fuel) (value : Json) (rest : List Char)
    (enough : 2 * value.renderChars.length ≤ fuel + 1) (ends : EndsNumber rest) :
    readValue (fuel + 1) (value.renderChars ++ rest) = some (value, rest) := by
  cases value with
  | null => rfl
  | bool value => cases value <;> rfl
  | integer negative magnitude => exact readValue_integer fuel negative magnitude ends
  | inexact => exact readValue_inexact fuel ends
  | string text => exact readValue_string fuel text rest
  | array items =>
      cases items with
      | nil => rfl
      | cons item items =>
          rw [renderChars, List.length_cons] at enough
          rw [renderChars, List.cons_append, List.append_assoc, readValue_array,
            reads.items item items rest (by omega)]
          rfl
  | object members =>
      rcases members with _ | ⟨⟨key, value⟩, members⟩
      · rfl
      · rw [renderChars, List.length_cons] at enough
        rw [renderChars, List.cons_append, List.append_assoc, List.cons_append, List.append_assoc,
          readValue_object, reads.members key value members rest (by omega)]
        rfl

theorem ReadsBack.items_succ (reads : ReadsBack fuel) (item : Json) (items : List Json)
    (rest : List Char) (enough : 2 * (item.renderChars ++ renderItems items).length < fuel + 1) :
    readItems (fuel + 1) (item.renderChars ++ (renderItems items ++ rest)) =
      some (item :: items, rest) := by
  rw [List.length_append] at enough
  rw [readItems, reads.value item _ (by omega) (endsNumber_renderItems items rest)]
  cases items with
  | nil => rfl
  | cons next items =>
      rw [renderItems, List.length_cons] at enough
      have read := reads.items next items rest (by omega)
      rw [renderItems, List.cons_append, List.append_assoc]
      simp [skipBlanks_cons, isBlank, read]

theorem ReadsBack.members_succ (reads : ReadsBack fuel) (key : Option String) (value : Json)
    (members : List (Option String × Json)) (rest : List Char)
    (enough : 2 * (renderString key ++ ':' :: (value.renderChars ++ renderMembers members)).length <
      fuel + 1) :
    readMembers (fuel + 1)
        (renderString key ++ ':' :: (value.renderChars ++ (renderMembers members ++ rest))) =
      some ((key, value) :: members, rest) := by
  obtain ⟨body, written, readKey⟩ := exists_renderString key
  rw [List.length_append, List.length_cons, List.length_append] at enough
  have readHead := reads.value value (renderMembers members ++ rest) (by omega)
    (endsNumber_renderMembers members rest)
  rw [written, List.cons_append, readMembers, skipBlanks_cons rfl]
  simp only [readKey, skipBlanks_cons (show isBlank ':' = false from rfl), readHead,
    Option.bind_eq_bind, Option.bind_some]
  rcases members with _ | ⟨⟨nextKey, next⟩, members⟩
  · rfl
  · rw [renderMembers, List.length_cons] at enough
    have read := reads.members nextKey next members rest (by omega)
    rw [renderMembers, List.cons_append, List.append_assoc, List.cons_append, List.append_assoc]
    simp only [skipBlanks_cons (show isBlank ',' = false from rfl), read, Option.bind_some]
    rfl

end Step

theorem readsBack (fuel : Nat) : ReadsBack fuel := by
  induction fuel with
  | zero =>
      refine ⟨fun value rest enough => ?_, nofun, nofun⟩
      obtain ⟨head, tail, written, _⟩ := exists_renderChars value
      rw [written, List.length_cons] at enough
      omega
  | succ fuel ih => exact ⟨ih.value_succ, ih.items_succ, ih.members_succ⟩

/-- The text of a value is read as the value. -/
theorem parse_render (value : Json) : parse value.render = some value := by
  have read := (readsBack (2 * value.renderChars.length + 2)).value value [] (by omega)
    endsNumber_nil
  rw [List.append_nil] at read
  rw [parse, render, String.toList_ofList, read]
  rfl

/-! ## Values inside values -/

/-- A value is another one or stands in it, at any depth. -/
inductive Inside (inner : Json) : Json → Prop where
  | here : Inside inner inner
  | item {item : Json} {items : List Json} (listed : item ∈ items) (deeper : Inside inner item) :
      Inside inner (array items)
  | member {member : Option String × Json} {members : List (Option String × Json)}
      (listed : member ∈ members) (deeper : Inside inner member.2) : Inside inner (object members)

theorem infix_renderItems {item first : Json} {items : List Json}
    (listed : item ∈ first :: items) :
    item.renderChars <:+: first.renderChars ++ renderItems items := by
  induction items generalizing first with
  | nil =>
      rw [List.mem_singleton.mp listed]
      exact (List.prefix_append _ _).isInfix
  | cons next items ih =>
      rcases List.mem_cons.mp listed with rfl | later
      · exact (List.prefix_append _ _).isInfix
      · rw [renderItems]
        exact ((ih later).trans (List.suffix_cons _ _).isInfix).trans
          (List.suffix_append _ _).isInfix

theorem infix_renderMembers {key : Option String} {value : Json} {member : Option String × Json}
    {members : List (Option String × Json)} (listed : member ∈ (key, value) :: members) :
    member.2.renderChars <:+:
      renderString key ++ ':' :: (value.renderChars ++ renderMembers members) := by
  induction members generalizing key value with
  | nil =>
      rw [List.mem_singleton.mp listed]
      exact ⟨renderString key ++ [':'], renderMembers [], by simp⟩
  | cons next members ih =>
      obtain ⟨nextKey, nextValue⟩ := next
      rcases List.mem_cons.mp listed with rfl | later
      · exact ⟨renderString key ++ [':'], renderMembers ((nextKey, nextValue) :: members), by simp⟩
      · have rest : member.2.renderChars <:+: renderMembers ((nextKey, nextValue) :: members) :=
          (ih later).trans (List.suffix_cons _ _).isInfix
        have value := rest.trans (List.suffix_append value.renderChars _).isInfix
        exact (value.trans (List.suffix_cons ':' _).isInfix).trans (List.suffix_append _ _).isInfix

/-- The text of a value stands in the text of whatever the value stands in. -/
theorem Inside.isInfix {inner outer : Json} (inside : Inside inner outer) :
    inner.renderChars <:+: outer.renderChars := by
  induction inside with
  | here => exact List.infix_rfl
  | @item item items listed _ ih =>
      cases items with
      | nil => cases listed
      | cons first items =>
          rw [renderChars]
          exact (ih.trans (infix_renderItems listed)).trans (List.suffix_cons _ _).isInfix
  | @member member members listed _ ih =>
      rcases members with _ | ⟨⟨key, value⟩, members⟩
      · cases listed
      · rw [renderChars]
        exact (ih.trans (infix_renderMembers listed)).trans (List.suffix_cons _ _).isInfix

end Json

end PoolLedger
