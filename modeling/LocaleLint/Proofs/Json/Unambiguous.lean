import LocaleLint.Proofs.Json.Read

set_option autoImplicit false

namespace LocaleLint.Json

def Stops (p : Char → Bool) (rest : List Char) : Prop := ∀ c ∈ rest.head?, p c = false

section Run
variable {p : Char → Bool} {run rest : List Char}

theorem stops_nil : Stops p [] := fun _ none => nomatch none

theorem stops_cons (c : Char) (other : p c = false) : Stops p (c :: rest) := by
  rintro first ⟨⟩
  exact other

theorem dropWhile_run (inside : ∀ c ∈ run, p c = true) (stops : Stops p rest) :
    (run ++ rest).dropWhile p = rest := by
  rw [List.dropWhile_append_of_pos inside]
  cases rest with
  | nil => rfl
  | cons c rest => exact List.dropWhile_cons_of_neg (by simp [stops c rfl])

theorem takeWhile_run (inside : ∀ c ∈ run, p c = true) (stops : Stops p rest) :
    (run ++ rest).takeWhile p = run := by
  rw [List.takeWhile_append_of_pos inside]
  cases rest with
  | nil => simp
  | cons c rest => simp [stops c rfl]

end Run

theorem isDigit_of_isBlank (c : Char) (blank : isBlank c = true) : c.isDigit = false := by
  simp only [isBlank, Bool.or_eq_true, beq_iff_eq] at blank
  rcases blank with ((rfl | rfl) | rfl) | rfl <;> rfl

theorem isBlank_of_isDigit (c : Char) (digit : c.isDigit = true) : isBlank c = false := by
  by_contra blank
  rw [isDigit_of_isBlank c (by simpa using blank)] at digit
  cases digit

theorem skipBlanks_append (gap rest : List Char) (blank : IsBlank gap)
    (stops : Stops isBlank rest) :
    skipBlanks (gap ++ rest) = rest :=
  dropWhile_run blank stops

theorem stopsDigits_append (gap rest : List Char) (blank : IsBlank gap)
    (stops : Stops Char.isDigit rest) : Stops Char.isDigit (gap ++ rest) := by
  cases gap with
  | nil => exact stops
  | cons c gap => exact stops_cons c (isDigit_of_isBlank c (blank c (List.mem_cons_self ..)))

section Int

theorem IsNumeral.head {digits : List Char} (numeral : IsNumeral digits) :
    ∃ first more, digits = first :: more ∧ first.isDigit = true := by
  cases numeral with
  | zero => exact ⟨'0', [], rfl, rfl⟩
  | positive first more digit proper digits => exact ⟨first, more, rfl, digit⟩

theorem readNatural?_of_isNumeral (digits rest : List Char) (stops : Stops Char.isDigit rest)
    (numeral : IsNumeral digits) :
    readNatural? (digits ++ rest) = some (Nat.ofDigitChars 10 digits 0, rest) := by
  cases numeral with
  | zero => rfl
  | positive first more digit proper digits =>
    rw [List.cons_append, readNatural?, if_neg proper, if_pos digit, takeWhile_run digits stops,
      dropWhile_run digits stops]

theorem readInt?_of_denotesInt (written rest : List Char) (stops : Stops Char.isDigit rest)
    (value : Int) (denotes : DenotesInt written value) :
    readInt? (written ++ rest) = some (value, rest) := by
  cases denotes with
  | natural digits numeral =>
    have read := readNatural?_of_isNumeral written rest stops numeral
    obtain ⟨first, more, rfl, digit⟩ := numeral.head
    have notMinus : first ≠ '-' := by
      rintro rfl
      cases digit
    rw [List.cons_append] at read ⊢
    rw [readInt?, if_neg notMinus, read]
    rfl
  | negative digits numeral =>
    rw [List.cons_append, readInt?, if_pos rfl, readNatural?_of_isNumeral digits rest stops numeral]
    rfl

end Int

section Text

theorem readCode?_of_isCode (digits rest : List Char) (code : Nat) (spelled : IsCode digits code) :
    readCode? (digits ++ rest) = some (code, rest) := by
  obtain ⟨length, hex, rfl⟩ := spelled
  have hex : digits.all Text.isHexDigit = true := List.all_eq_true.mpr hex
  simp only [readCode?, List.take_left' length, List.drop_left' length, length, hex,
    and_self, if_true]

theorem not_surrogate (c : Char) :
    Text.isHighSurrogate c.toNat = false ∧ Text.isLowSurrogate c.toNat = false := by
  have valid : c.toNat < 0xd800 ∨ 0xdfff < c.toNat ∧ c.toNat < 0x110000 := c.valid
  simp only [Text.isHighSurrogate, Text.isLowSurrogate, Bool.and_eq_false_iff,
    decide_eq_false_iff_not]
  omega

theorem readChar?_of_denotesChar (written rest : List Char) (c : Char)
    (denotes : DenotesChar written c) : readChar? (written ++ rest) = some (c, rest) := by
  cases denotes with
  | plain c visible notQuote notBackslash =>
    simp only [List.cons_append, List.nil_append, readChar?, if_neg notBackslash]
    rw [if_pos ⟨visible, notQuote⟩]
  | short letter c meant =>
    have other : letter ≠ 'u' := by
      rintro rfl
      cases meant
    simp only [List.cons_append, List.nil_append, readChar?, readEscape?, if_true,
      if_neg other, meant]
    rfl
  | code digits c spelled =>
    have read := readCode?_of_isCode digits rest c.toNat spelled
    obtain ⟨notHigh, notLow⟩ := not_surrogate c
    simp [readChar?, readEscape?, readCoded?, read, notHigh, notLow]
  | pair first second high low c spelledHigh spelledLow isHigh isLow paired =>
    have readFirst := readCode?_of_isCode first ('\\' :: 'u' :: second ++ rest) high spelledHigh
    have readSecond := readCode?_of_isCode second rest low spelledLow
    rw [List.cons_append, List.cons_append] at readFirst
    simp [readChar?, readEscape?, readCoded?, readFirst, isHigh, readLow?, readSecond,
      isLow, paired]

theorem DenotesChar.head {written : List Char} {c : Char} (denotes : DenotesChar written c) :
    ∃ first more, written = first :: more ∧ first ≠ '"' := by
  cases denotes with
  | plain c visible notQuote notBackslash => exact ⟨c, [], rfl, notQuote⟩
  | _ => exact ⟨'\\', _, rfl, by decide⟩

theorem readChars?_of_denotesChars (inner chars : List Char) (denotes : DenotesChars inner chars)
    (fuel : Nat) (enough : inner.length < fuel) (rest : List Char) :
    readChars? fuel (inner ++ '"' :: rest) = some (chars, rest) := by
  induction denotes generalizing fuel with
  | nil =>
    obtain ⟨fuel, rfl⟩ := Nat.exists_eq_add_of_lt enough
    rfl
  | cons written more c text here later ih =>
    have read := readChar?_of_denotesChar written (more ++ '"' :: rest) c here
    obtain ⟨first, others, rfl, notQuote⟩ := here.head
    rw [List.length_append, List.length_cons] at enough
    cases fuel with
    | zero => omega
    | succ fuel =>
      rw [List.append_assoc]
      rw [List.cons_append] at read ⊢
      simp only [readChars?, if_neg notQuote, read, Option.bind_some, ih fuel (by omega),
        Option.map_some]

theorem readText?_of_denotesText (written : List Char) (text : String)
    (denotes : DenotesText written text) (fuel : Nat) (enough : written.length ≤ fuel + 1)
    (rest : List Char) : readText? fuel (written ++ rest) = some (text, rest) := by
  obtain ⟨inner, text, spelled⟩ := denotes
  simp only [List.length_append, List.length_cons, List.length_nil] at enough
  have read := readChars?_of_denotesChars inner text.toList spelled fuel (by omega) rest
  simp [readText?, read]

end Text

def Complete {α : Type} (read : List Char → Option (α × List Char)) (denotes : List Char → α → Prop)
    (bound : Nat) : Prop :=
  ∀ written item, written.length ≤ bound → denotes written item →
    ∀ rest, Stops Char.isDigit rest → read (written ++ rest) = some (item, rest)

/-- An item starts with a character that is neither a blank nor a given bracket. -/
def StartsApart {α : Type} (denotes : List Char → α → Prop) (closing : Char) : Prop :=
  ∀ written item, denotes written item →
    ∃ first more, written = first :: more ∧ isBlank first = false ∧ first ≠ closing

structure IsClosing (closing : Char) : Prop where
  notBlank : isBlank closing = false
  notDigit : closing.isDigit = false
  notComma : closing ≠ ','

section Items
variable {α : Type} {read : List Char → Option (α × List Char)} {denotes : List Char → α → Prop}
  {bound : Nat} {closing : Char}

theorem skipBlanks_before (apart : StartsApart denotes closing) (before inner : List Char)
    (item : α)
    (opens : IsBlank before) (given : denotes inner item) (rest : List Char) :
    skipBlanks (before ++ inner ++ rest) = inner ++ rest := by
  obtain ⟨first, more, rfl, solid, -⟩ := apart inner item given
  rw [List.append_assoc]
  exact skipBlanks_append before _ opens (stops_cons first solid)

theorem read_of_padded (complete : Complete read denotes bound)
    (apart : StartsApart denotes closing)
    (written : List Char) (item : α) (padded : Padded denotes written item)
    (within : written.length ≤ bound) (c : Char) (rest : List Char) (notBlank : isBlank c = false)
    (notDigit : c.isDigit = false) :
    ∃ left, read (skipBlanks (written ++ c :: rest)) = some (item, left) ∧
      skipBlanks left = c :: rest := by
  obtain ⟨before, inner, after, item, opens, given, closes⟩ := padded
  refine ⟨after ++ c :: rest, ?_, skipBlanks_append after _ closes (stops_cons c notBlank)⟩
  have short : inner.length ≤ bound := by
    simp only [List.length_append] at within
    omega
  have stops := stopsDigits_append after (c :: rest) closes (stops_cons c notDigit)
  rw [List.append_assoc (before ++ inner), skipBlanks_before apart before inner item opens given]
  exact complete inner item short given _ stops

theorem Separated.head {inner : List Char} {items : List α}
    (separated : Separated denotes inner items)
    (apart : StartsApart denotes closing) (rest : List Char) :
    ∃ first more, skipBlanks (inner ++ rest) = first :: more ∧ first ≠ closing := by
  have ofPadded (written rest : List Char) (item : α) (padded : Padded denotes written item) :
      ∃ first more, skipBlanks (written ++ rest) = first :: more ∧ first ≠ closing := by
    obtain ⟨before, inner, after, item, opens, given, closes⟩ := padded
    rw [List.append_assoc (before ++ inner), skipBlanks_before apart before inner item opens given]
    obtain ⟨first, more, rfl, -, other⟩ := apart inner item given
    exact ⟨first, _, rfl, other⟩
  cases separated with
  | last written item padded => exact ofPadded inner rest item padded
  | more written others item items padded later =>
    rw [List.append_assoc]
    exact ofPadded written _ item padded

theorem Separated.length_pos {inner : List Char} {items : List α}
    (separated : Separated denotes inner items) (apart : StartsApart denotes closing) :
    0 < inner.length := by
  obtain ⟨first, more, starts, -⟩ := separated.head apart []
  rw [List.append_nil] at starts
  apply List.length_pos_of_ne_nil
  rintro rfl
  cases starts

theorem readItems?_of_separated (complete : Complete read denotes bound)
    (apart : StartsApart denotes closing) (closes : IsClosing closing) (inner : List Char)
    (items : List α) (separated : Separated denotes inner items) (fuel : Nat)
    (enough : inner.length ≤ fuel) (within : inner.length ≤ bound) (rest : List Char) :
    readItems? read closing fuel (inner ++ closing :: rest) = some (items, rest) := by
  have positive := separated.length_pos apart
  induction separated generalizing fuel with
  | last written item padded =>
    obtain ⟨left, reads, behind⟩ :=
      read_of_padded complete apart written item padded within closing rest
      closes.notBlank closes.notDigit
    cases fuel with
    | zero => omega
    | succ fuel =>
      rw [readItems?, reads, Option.bind_some]
      simp only [behind, if_neg closes.notComma, if_true]
  | more written others item items padded later ih =>
    rw [List.length_append, List.length_cons] at enough within
    obtain ⟨left, reads, behind⟩ := read_of_padded complete apart written item padded (by omega) ','
      (others ++ closing :: rest) rfl rfl
    cases fuel with
    | zero => omega
    | succ fuel =>
      -- The comma at least has been read, so the fuel that is left suffices.
      have more := ih fuel (by omega) (by omega) (later.length_pos apart)
      rw [List.append_assoc, List.cons_append, readItems?, reads, Option.bind_some]
      simp only [behind, if_true, more]
      rfl

theorem readBracketed?_of_bracketed (complete : Complete read denotes bound)
    (apart : StartsApart denotes closing) (closes : IsClosing closing) (opening : Char)
    (written : List Char) (items : List α)
    (bracketed : Bracketed denotes opening closing written items)
    (fuel : Nat) (enough : written.length ≤ fuel + 1) (within : written.length ≤ bound + 1)
    (rest : List Char) :
    readBracketed? read opening closing fuel (written ++ rest) = some (items, rest) := by
  cases bracketed with
  | empty gap blank =>
    have skipped :=
      skipBlanks_append gap (closing :: rest) blank (stops_cons closing closes.notBlank)
    simp [readBracketed?, skipped]
  | filled inner items separated =>
    simp only [List.length_append, List.length_cons, List.length_nil] at enough within
    have reads :=
      readItems?_of_separated complete apart closes inner items separated fuel (by omega)
      (by omega) rest
    obtain ⟨first, more, starts, other⟩ := separated.head apart (closing :: rest)
    simp [readBracketed?, starts, other, reads]

theorem Bracketed.head {opening : Char} {written : List Char} {items : List α}
    (bracketed : Bracketed denotes opening closing written items) :
    ∃ more, written = opening :: more := by
  cases bracketed with
  | empty gap blank => exact ⟨_, rfl⟩
  | filled inner items separated => exact ⟨_, rfl⟩

end Items

theorem DenotesText.head {written : List Char} {text : String}
    (denotes : DenotesText written text) :
    ∃ more, written = '"' :: more := by
  obtain ⟨inner, text, spelled⟩ := denotes
  exact ⟨_, rfl⟩

theorem DenotesInt.head {written : List Char} {value : Int} (denotes : DenotesInt written value) :
    ∃ first more, written = first :: more ∧ (first = '-' ∨ first.isDigit = true) := by
  cases denotes with
  | natural digits numeral =>
    obtain ⟨first, more, rfl, digit⟩ := numeral.head
    exact ⟨first, more, rfl, .inr digit⟩
  | negative digits numeral => exact ⟨'-', digits, rfl, .inl rfl⟩

theorem ne_of_start {first : Char} (start : first = '-' ∨ first.isDigit = true) (c : Char)
    (notMinus : c ≠ '-') (notDigit : c.isDigit = false) : first ≠ c := by
  rintro rfl
  rcases start with same | digit
  next => exact notMinus same
  next =>
    rw [notDigit] at digit
    cases digit

theorem startsApart_denotes (closing : Char) (bracket : closing = ']' ∨ closing = '\x7d') :
    StartsApart Denotes closing := by
  have other (c : Char) (square : c ≠ ']') (curly : c ≠ '\x7d') : c ≠ closing := by
    rcases bracket with rfl | rfl
    next => exact square
    next => exact curly
  intro written value denotes
  cases denotes with
  | null => exact ⟨'n', _, rfl, rfl, other _ (by decide) (by decide)⟩
  | int written value spelled =>
    obtain ⟨first, more, rfl, start⟩ := spelled.head
    have notBlank : isBlank first = false := by
      rcases start with rfl | digit
      next => rfl
      next => exact isBlank_of_isDigit first digit
    have square := ne_of_start start ']' (by decide) rfl
    have curly := ne_of_start start '\x7d' (by decide) rfl
    exact ⟨first, more, rfl, notBlank, other first square curly⟩
  | string written text spelled =>
    obtain ⟨more, rfl⟩ := spelled.head
    exact ⟨'"', more, rfl, rfl, other _ (by decide) (by decide)⟩
  | list written items given =>
    obtain ⟨more, rfl⟩ := given.head
    exact ⟨'[', more, rfl, rfl, other _ (by decide) (by decide)⟩
  | object written fields given =>
    obtain ⟨more, rfl⟩ := given.head
    exact ⟨'\x7b', more, rfl, rfl, other _ (by decide) (by decide)⟩

theorem startsApart_denotesField {denotes : List Char → Json → Prop} :
    StartsApart (DenotesField denotes) '\x7d' := by
  intro written field denotes
  obtain ⟨quoted, before, after, written, name, value, spelled, opens, closes, given⟩ := denotes
  obtain ⟨more, rfl⟩ := spelled.head
  exact ⟨'"', _, rfl, rfl, by decide⟩

theorem complete_readField? {read : List Char → Option (Json × List Char)}
    {denotes : List Char → Json → Prop} {bound : Nat} {closing : Char}
    (complete : Complete read denotes bound) (apart : StartsApart denotes closing) (fuel : Nat)
    (enough : bound ≤ fuel + 1) : Complete (readField? read fuel) (DenotesField denotes) bound := by
  intro written field within denoted rest stops
  obtain ⟨quoted, before, after, written, name, value, spelled, opens, closes, given⟩ := denoted
  simp only [List.length_append, List.length_cons] at within
  have named := readText?_of_denotesText quoted name spelled fuel (by omega)
    (before ++ ':' :: (after ++ (written ++ rest)))
  have colon :=
    skipBlanks_append before (':' :: (after ++ (written ++ rest))) opens (stops_cons ':' rfl)
  have valued := complete written value (by omega) given rest stops
  obtain ⟨first, more, rfl, solid, -⟩ := apart written value given
  have gap := skipBlanks_append after (first :: more ++ rest) closes (stops_cons first solid)
  simp only [List.append_assoc, List.cons_append] at named colon gap valued ⊢
  simp [readField?, named, colon, gap, valued]

theorem complete_readValue? (fuel : Nat) : Complete (readValue? fuel) Denotes fuel := by
  have square : IsClosing ']' := ⟨rfl, rfl, by decide⟩
  have curly : IsClosing '\x7d' := ⟨rfl, rfl, by decide⟩
  induction fuel with
  | zero =>
    -- No value is denoted by the empty text.
    intro written value within denotes
    obtain ⟨first, more, rfl, -⟩ := startsApart_denotes ']' (.inl rfl) written value denotes
    cases within
  | succ fuel ih =>
    intro written value within denotes rest stops
    cases denotes with
    | null => rfl
    | int written value spelled =>
      have reads := readInt?_of_denotesInt written rest stops value spelled
      obtain ⟨first, more, rfl, start⟩ := spelled.head
      rw [List.cons_append] at reads ⊢
      have other := ne_of_start start
      rw [readValue?, if_neg (other 'n' (by decide) rfl), if_neg (other '"' (by decide) rfl),
        if_neg (other '[' (by decide) rfl), if_neg (other '\x7b' (by decide) rfl), reads]
      rfl
    | string written text spelled =>
      have reads := readText?_of_denotesText written text spelled fuel within rest
      obtain ⟨more, rfl⟩ := spelled.head
      simp only [List.cons_append] at reads ⊢
      simp [readValue?, reads]
    | list written items given =>
      have reads :=
        readBracketed?_of_bracketed ih (startsApart_denotes _ (.inl rfl)) square '[' written
        items given fuel within within rest
      obtain ⟨more, rfl⟩ := given.head
      simp only [List.cons_append] at reads ⊢
      simp [readValue?, reads]
    | object written fields given =>
      have field :=
        complete_readField? ih (startsApart_denotes _ (.inl rfl)) fuel (Nat.le_succ fuel)
      have reads := readBracketed?_of_bracketed field startsApart_denotesField curly '\x7b' written
        fields given fuel within within rest
      obtain ⟨more, rfl⟩ := given.head
      simp only [List.cons_append] at reads ⊢
      simp [readValue?, reads]

theorem read?_eq_some_iff (text : List Char) (value : Json) :
    read? text = some value ↔ Padded Denotes text value := by
  constructor
  next =>
    intro read
    obtain ⟨⟨found, rest⟩, given, ends⟩ := Option.bind_eq_some_iff.mp read
    obtain ⟨gap, opens, split⟩ := exists_blanks text
    obtain ⟨written, taken, denotes⟩ := sound_readValue? _ _ _ _ given
    obtain ⟨after, closes, left⟩ := exists_blanks rest
    dsimp only at ends
    split at ends
    next ended =>
      cases ends
      rw [ended, List.append_nil] at left
      rw [split, taken, ← List.append_assoc, left]
      exact .around gap written after value opens denotes closes
    next => cases ends
  next =>
    rintro ⟨before, inner, after, value, opens, denotes, closes⟩
    have reads := complete_readValue? (before ++ inner ++ after).length inner value (by simp; omega)
      denotes after (by simpa using stopsDigits_append after [] closes stops_nil)
    have ended : skipBlanks after = [] := by
      simpa using skipBlanks_append after [] closes stops_nil
    have apart := startsApart_denotes ']' (.inl rfl)
    rw [read?, skipBlanks_before apart before inner value opens denotes, reads]
    simp [ended]

theorem Padded.unique {text : List Char} {first second : Json} (one : Padded Denotes text first)
    (other : Padded Denotes text second) : first = second := by
  have read := (read?_eq_some_iff text first).mpr one
  rw [(read?_eq_some_iff text second).mpr other] at read
  exact (Option.some.inj read).symm

example : read? "[ -12,null , \x7b\"\\u0041\" :[ ]\x7d]".toList =
    some (.list [.int (-12), .null, .object [("A", .list [])]]) := by
  rfl

end LocaleLint.Json
