import Mathlib.Data.List.TakeWhile
import LocaleLint.Proofs.Encoding.Utf8
import LocaleLint.Proofs.Json.Grammar

set_option autoImplicit false

namespace LocaleLint.Json

def skipBlanks (text : List Char) : List Char := text.dropWhile isBlank

def readNatural? : List Char → Option (Nat × List Char)
  | [] => none
  | c :: rest =>
      if c = '0' then some (0, rest)
      else if c.isDigit then
        some (Nat.ofDigitChars 10 (c :: rest.takeWhile Char.isDigit) 0, rest.dropWhile Char.isDigit)
      else none

def readInt? : List Char → Option (Int × List Char)
  | [] => none
  | c :: rest =>
      if c = '-' then (readNatural? rest).map fun (n, rest) => (-(n : Int), rest)
      else (readNatural? (c :: rest)).map fun (n, rest) => ((n : Int), rest)

def readCode? (text : List Char) : Option (Nat × List Char) :=
  let digits := text.take 4
  if digits.length = 4 ∧ digits.all Text.isHexDigit then some (Text.hexNumber digits, text.drop 4)
  else none

-- The code of a low half, with its backslash, behind that of a high one.
def readLow? (high : Nat) : List Char → Option (Char × List Char)
  | '\\' :: 'u' :: rest =>
      (readCode? rest).bind fun (low, rest) =>
        if Text.isLowSurrogate low then some (Char.ofNat (Text.pairCode high low), rest) else none
  | _ => none

def readCoded? (text : List Char) : Option (Char × List Char) :=
  (readCode? text).bind fun (code, rest) =>
    if Text.isHighSurrogate code then readLow? code rest
    else if Text.isLowSurrogate code then none
    else some (Char.ofNat code, rest)

def readEscape? : List Char → Option (Char × List Char)
  | [] => none
  | letter :: rest =>
      if letter = 'u' then readCoded? rest else (shortEscape? letter).map fun c => (c, rest)

def readChar? : List Char → Option (Char × List Char)
  | [] => none
  | c :: rest =>
      if c = '\\' then readEscape? rest
      else if ' ' ≤ c ∧ c ≠ '"' then some (c, rest)
      else none

def readChars? : Nat → List Char → Option (List Char × List Char)
  | _, [] => none
  | 0, _ => none
  | fuel + 1, c :: rest =>
      if c = '"' then some ([], rest)
      else
        (readChar? (c :: rest)).bind fun (c, rest) =>
          (readChars? fuel rest).map fun (more, rest) => (c :: more, rest)

def readText? (fuel : Nat) : List Char → Option (String × List Char)
  | [] => none
  | c :: rest =>
      if c = '"' then (readChars? fuel rest).map fun (chars, rest) => (String.ofList chars, rest)
      else none

section Items
variable {α : Type} (read : List Char → Option (α × List Char)) (opening closing : Char)

def readItems? : Nat → List Char → Option (List α × List Char)
  | 0, _ => none
  | fuel + 1, text =>
      (read (skipBlanks text)).bind fun (item, rest) =>
        match skipBlanks rest with
        | [] => none
        | c :: rest =>
            if c = ',' then (readItems? fuel rest).map fun (items, rest) => (item :: items, rest)
            else if c = closing then some ([item], rest)
            else none

def readBracketed? (fuel : Nat) : List Char → Option (List α × List Char)
  | [] => none
  | c :: rest =>
      if c = opening then
        match skipBlanks rest with
        | [] => none
        | d :: more => if d = closing then some ([], more) else readItems? read closing fuel rest
      else none

end Items

def readField? (read : List Char → Option (Json × List Char)) (fuel : Nat) (text : List Char) :
    Option ((String × Json) × List Char) :=
  (readText? fuel text).bind fun (name, rest) =>
    match skipBlanks rest with
    | [] => none
    | c :: rest =>
        if c = ':' then (read (skipBlanks rest)).map fun (value, rest) => ((name, value), rest)
        else none

def readNull? : List Char → Option (Json × List Char)
  | 'n' :: 'u' :: 'l' :: 'l' :: rest => some (.null, rest)
  | _ => none

-- The first character tells what kind of value comes.
def readValue? : Nat → List Char → Option (Json × List Char)
  | _, [] => none
  | 0, _ => none
  | fuel + 1, c :: rest =>
      if c = 'n' then readNull? (c :: rest)
      else if c = '"' then (readText? fuel (c :: rest)).map fun (text, rest) => (.string text, rest)
      else if c = '[' then
        (readBracketed? (readValue? fuel) '[' ']' fuel (c :: rest)).map fun (items, rest) =>
          (.list items, rest)
      else if c = '\x7b' then
        (readBracketed? (readField? (readValue? fuel) fuel) '\x7b' '\x7d' fuel (c :: rest)).map
          fun (fields, rest) => (.object fields, rest)
      else (readInt? (c :: rest)).map fun (value, rest) => (.int value, rest)

def read? (text : List Char) : Option Json :=
  (readValue? text.length (skipBlanks text)).bind fun (value, rest) =>
    if skipBlanks rest = [] then some value else none

theorem exists_blanks (text : List Char) : ∃ gap, IsBlank gap ∧ text = gap ++ skipBlanks text :=
  ⟨text.takeWhile isBlank, fun _ => List.mem_takeWhile_imp, List.takeWhile_append_dropWhile.symm⟩

-- What a reader takes off the front denotes the item that it gives.
def Sound {α : Type} (read : List Char → Option (α × List Char)) (denotes : List Char → α → Prop) :
    Prop :=
  ∀ text item rest, read text = some (item, rest) → ∃ written, text = written ++ rest ∧
    denotes written item

theorem Sound.mapped {α β : Type} {read : List Char → Option (α × List Char)}
    {denotes : List Char → α → Prop} {denotesMade : List Char → β → Prop}
    (sound : Sound read denotes)
    (make : α → β)
    (means : ∀ written item, denotes written item → denotesMade written (make item)) :
    Sound (fun text => (read text).map fun (item, rest) => (make item, rest)) denotesMade := by
  intro text made rest given
  obtain ⟨⟨item, after⟩, reads, same⟩ := Option.map_eq_some_iff.mp given
  cases same
  obtain ⟨written, split, denoted⟩ := sound text item rest reads
  exact ⟨written, split, means written item denoted⟩

theorem sound_readNatural? :
    Sound readNatural? fun written n => IsNumeral written ∧ Nat.ofDigitChars 10 written 0 = n := by
  intro text n rest read
  cases text with
  | nil => cases read
  | cons c text =>
    rw [readNatural?] at read
    split at read
    next zero =>
      cases read
      exact ⟨['0'], by simp [zero], .zero, rfl⟩
    next proper =>
      split at read
      next digit =>
        cases read
        refine ⟨c :: text.takeWhile Char.isDigit, ?_, ?_, rfl⟩
        next => rw [List.cons_append, List.takeWhile_append_dropWhile]
        next => exact .positive c _ digit proper fun _ => List.mem_takeWhile_imp
      next => cases read

theorem sound_readInt? : Sound readInt? DenotesInt := by
  intro text value rest read
  cases text with
  | nil => cases read
  | cons c text =>
    rw [readInt?] at read
    split at read
    next minus =>
      obtain ⟨⟨n, rest⟩, natural, same⟩ := Option.map_eq_some_iff.mp read
      cases same
      obtain ⟨digits, rfl, numeral, rfl⟩ := sound_readNatural? _ _ _ natural
      exact ⟨'-' :: digits, by simp [minus], .negative digits numeral⟩
    next =>
      refine sound_readNatural?.mapped (fun n => (n : Int)) ?_ (c :: text) value rest read
      rintro digits n ⟨numeral, rfl⟩
      exact .natural digits numeral

theorem sound_readCode? : Sound readCode? IsCode := by
  intro text code rest read
  unfold readCode? at read
  dsimp only at read
  split at read
  next hex =>
    cases read
    exact ⟨text.take 4, (List.take_append_drop 4 text).symm, hex.1, List.all_eq_true.mp hex.2, rfl⟩
  next => cases read

theorem hexValue_lt (c : Char) (hex : Text.isHexDigit c = true) : Text.hexValue c < 16 := by
  simp only [Text.isHexDigit, Text.isAsciiDigit, Bool.or_eq_true, Bool.and_eq_true,
    decide_eq_true_eq,
    Char.le_def, UInt32.le_iff_toNat_le] at hex
  simp only [Text.hexValue, Text.isAsciiDigit, Bool.and_eq_true, decide_eq_true_eq, Char.le_def,
    UInt32.le_iff_toNat_le, Char.toNat]
  have zero : '0'.val.toNat = 48 := rfl
  have nine : '9'.val.toNat = 57 := rfl
  have a : 'a'.val.toNat = 97 := rfl
  have f : 'f'.val.toNat = 102 := rfl
  have upperA : 'A'.val.toNat = 65 := rfl
  have upperF : 'F'.val.toNat = 70 := rfl
  split
  next => omega
  next => split <;> omega

theorem IsCode.lt {digits : List Char} {code : Nat} (spelled : IsCode digits code) :
    code < 65536 := by
  obtain ⟨length, hex, rfl⟩ := spelled
  obtain ⟨a, b, c, d, rfl⟩ : ∃ a b c d, digits = [a, b, c, d] := List.length_eq_four.mp length
  simp only [List.forall_mem_cons] at hex
  obtain ⟨first, second, third, fourth, -⟩ := hex
  have first := hexValue_lt a first
  have second := hexValue_lt b second
  have third := hexValue_lt c third
  have fourth := hexValue_lt d fourth
  simp only [Text.hexNumber, List.foldl_cons, List.foldl_nil]
  omega

theorem isHigh_iff (code : Nat) :
    Text.isHighSurrogate code = true ↔ 0xd800 ≤ code ∧ code < 0xdc00 := by
  simp [Text.isHighSurrogate]

theorem isLow_iff (code : Nat) :
    Text.isLowSurrogate code = true ↔ 0xdc00 ≤ code ∧ code < 0xe000 := by
  simp [Text.isLowSurrogate]

theorem toNat_pairCode (high low : Nat) (isHigh : Text.isHighSurrogate high = true)
    (isLow : Text.isLowSurrogate low = true) :
    (Char.ofNat (Text.pairCode high low)).toNat = Text.pairCode high low := by
  rw [isHigh_iff] at isHigh
  rw [isLow_iff] at isLow
  apply Encoding.Utf8.toNat_ofNat
  unfold Text.pairCode
  exact .inr ⟨by omega, by omega⟩

theorem sound_readLow? (high : Nat) (text : List Char) (c : Char) (rest : List Char)
    (isHigh : Text.isHighSurrogate high = true) (read : readLow? high text = some (c, rest)) :
    ∃ low second, text = '\\' :: 'u' :: second ++ rest ∧ IsCode second low ∧
      Text.isLowSurrogate low = true ∧ Text.pairCode high low = c.toNat := by
  unfold readLow? at read
  split at read
  next more =>
    obtain ⟨⟨low, after⟩, coded, decided⟩ := Option.bind_eq_some_iff.mp read
    obtain ⟨second, rfl, spelled⟩ := sound_readCode? _ _ _ coded
    dsimp only at decided
    split at decided
    next isLow =>
      obtain ⟨rfl, rfl⟩ := Prod.mk.inj (Option.some.inj decided)
      exact ⟨low, second, rfl, spelled, isLow, (toNat_pairCode high low isHigh isLow).symm⟩
    next => cases decided
  next => cases read

theorem sound_readCoded? (text : List Char) (c : Char) (rest : List Char)
    (read : readCoded? text = some (c, rest)) :
    ∃ written, '\\' :: 'u' :: text = written ++ rest ∧ DenotesChar written c := by
  obtain ⟨⟨code, after⟩, coded, decided⟩ := Option.bind_eq_some_iff.mp read
  obtain ⟨digits, rfl, spelled⟩ := sound_readCode? _ _ _ coded
  dsimp only at decided
  split at decided
  next isHigh =>
    obtain ⟨low, second, rfl, spelledLow, isLow, paired⟩ := sound_readLow? _ _ _ _ isHigh decided
    exact ⟨_, by simp, .pair digits second code low c spelled spelledLow isHigh isLow paired⟩
  next notHigh =>
    split at decided
    next => cases decided
    next notLow =>
      cases decided
      -- Four digits stay below the codes that are too large for a character.
      have small := spelled.lt
      rw [isHigh_iff] at notHigh
      rw [isLow_iff] at notLow
      have whole : (Char.ofNat code).toNat = code := by
        apply Encoding.Utf8.toNat_ofNat
        unfold Nat.isValidChar
        omega
      rw [← whole] at spelled
      exact ⟨_, rfl, .code digits _ spelled⟩

theorem sound_readChar? : Sound readChar? DenotesChar := by
  intro text c rest read
  cases text with
  | nil => cases read
  | cons first text =>
    rw [readChar?] at read
    split at read
    next backslash =>
      subst backslash
      cases text with
      | nil => cases read
      | cons letter text =>
        rw [readEscape?] at read
        split at read
        next u =>
          subst u
          exact sound_readCoded? text c rest read
        next =>
          obtain ⟨meant, short, same⟩ := Option.map_eq_some_iff.mp read
          cases same
          exact ⟨['\\', letter], rfl, .short letter c short⟩
    next notBackslash =>
      split at read
      next plain =>
        cases read
        exact ⟨[c], rfl, .plain c plain.1 plain.2 notBackslash⟩
      next => cases read

theorem sound_readChars? (fuel : Nat) (text chars rest : List Char)
    (read : readChars? fuel text = some (chars, rest)) :
    ∃ inner, text = inner ++ '"' :: rest ∧ DenotesChars inner chars := by
  induction fuel generalizing text chars with
  | zero => cases text <;> cases read
  | succ fuel ih =>
    cases text with
    | nil => cases read
    | cons c text =>
      rw [readChars?] at read
      split at read
      next quote =>
        cases read
        exact ⟨[], by simp [quote], .nil⟩
      next =>
        obtain ⟨⟨head, after⟩, here, behind⟩ := Option.bind_eq_some_iff.mp read
        obtain ⟨⟨more, after'⟩, later, same⟩ := Option.map_eq_some_iff.mp behind
        cases same
        obtain ⟨written, split, denotes⟩ := sound_readChar? _ _ _ here
        obtain ⟨inner, rfl, others⟩ := ih _ _ later
        exact ⟨written ++ inner, by simpa using split, .cons written inner head more denotes others⟩

theorem sound_readText? (fuel : Nat) : Sound (readText? fuel) DenotesText := by
  intro text value rest read
  cases text with
  | nil => cases read
  | cons c text =>
    rw [readText?] at read
    split at read
    next quote =>
      obtain ⟨⟨chars, after⟩, inside, same⟩ := Option.map_eq_some_iff.mp read
      cases same
      obtain ⟨inner, rfl, denotes⟩ := sound_readChars? _ _ _ _ inside
      rw [← String.toList_ofList (l := chars)] at denotes
      exact ⟨'"' :: inner ++ ['"'], by simp [quote], .quoted inner _ denotes⟩
    next => cases read

section Items
variable {α : Type} {read : List Char → Option (α × List Char)} {denotes : List Char → α → Prop}

theorem sound_readItems? (sound : Sound read denotes) (closing : Char) (fuel : Nat)
    (text : List Char)
    (items : List α) (rest : List Char)
    (given : readItems? read closing fuel text = some (items, rest)) :
    ∃ inner, text = inner ++ closing :: rest ∧ Separated denotes inner items := by
  induction fuel generalizing text items with
  | zero => cases given
  | succ fuel ih =>
    rw [readItems?] at given
    obtain ⟨⟨item, after⟩, here, given⟩ := Option.bind_eq_some_iff.mp given
    obtain ⟨before, opens, split⟩ := exists_blanks text
    obtain ⟨written, taken, denoted⟩ := sound _ _ _ here
    obtain ⟨behind, closes, left⟩ := exists_blanks after
    have padded := Padded.around before written behind item opens denoted closes
    dsimp only at given
    split at given
    next => cases given
    next c more following =>
      have whole : text = before ++ written ++ behind ++ c :: more := by
        rw [split, taken, left, following]
        simp
      split at given
      next comma =>
        obtain ⟨⟨others, after'⟩, later, same⟩ := Option.map_eq_some_iff.mp given
        cases same
        obtain ⟨inner, rfl, separated⟩ := ih _ _ later
        refine ⟨before ++ written ++ behind ++ ',' :: inner, ?_,
          .more _ inner item others padded separated⟩
        rw [whole, comma]
        simp
      next =>
        split at given
        next close =>
          cases given
          exact ⟨_, by rw [whole, close], .last _ item padded⟩
        next => cases given

theorem sound_readBracketed? (sound : Sound read denotes) (opening closing : Char) (fuel : Nat) :
    Sound (readBracketed? read opening closing fuel) (Bracketed denotes opening closing) := by
  intro text items rest given
  cases text with
  | nil => cases given
  | cons c text =>
    rw [readBracketed?] at given
    split at given
    next opens =>
      obtain ⟨gap, blank, whole⟩ := exists_blanks text
      split at given
      next => cases given
      next d more following =>
        split at given
        next close =>
          cases given
          exact ⟨opening :: gap ++ [closing], by rw [whole, following, opens, close]; simp,
            .empty gap blank⟩
        next =>
          obtain ⟨inner, rfl, separated⟩ := sound_readItems? sound _ _ _ _ _ given
          exact ⟨opening :: inner ++ [closing], by simp [opens], .filled inner items separated⟩
    next => cases given

end Items

theorem sound_readField? {read : List Char → Option (Json × List Char)}
    {denotes : List Char → Json → Prop}
    (sound : Sound read denotes) (fuel : Nat) :
    Sound (readField? read fuel) (DenotesField denotes) := by
  intro text field rest given
  obtain ⟨⟨name, after⟩, named, behind⟩ := Option.bind_eq_some_iff.mp given
  obtain ⟨quoted, rfl, spelled⟩ := sound_readText? _ _ _ _ named
  obtain ⟨before, opens, left⟩ := exists_blanks after
  dsimp only at behind
  split at behind
  next => cases behind
  next c more following =>
    split at behind
    next colon =>
      obtain ⟨⟨value, after'⟩, valued, same⟩ := Option.map_eq_some_iff.mp behind
      cases same
      obtain ⟨space, closes, gap⟩ := exists_blanks more
      obtain ⟨written, taken, denoted⟩ := sound _ _ _ valued
      refine ⟨_, ?_, .named quoted before space written name value spelled opens closes denoted⟩
      rw [left, following, gap, taken, colon]
      simp
    next => cases behind

theorem sound_readNull? : Sound readNull? Denotes := by
  intro text value rest read
  unfold readNull? at read
  split at read
  next =>
    cases read
    exact ⟨_, rfl, .null⟩
  next => cases read

theorem sound_readValue? (fuel : Nat) : Sound (readValue? fuel) Denotes := by
  induction fuel with
  | zero =>
    intro text value rest read
    cases text <;> cases read
  | succ fuel ih =>
    have ofText := (sound_readText? fuel).mapped Json.string Denotes.string
    have ofList := (sound_readBracketed? ih '[' ']' fuel).mapped Json.list Denotes.list
    have ofObject := (sound_readBracketed? (sound_readField? ih fuel) '\x7b' '\x7d' fuel).mapped
      Json.object Denotes.object
    have ofInt := sound_readInt?.mapped Json.int Denotes.int
    intro text value rest read
    cases text with
    | nil => cases read
    | cons c text =>
      rw [readValue?] at read
      split at read
      next => exact sound_readNull? _ _ _ read
      next =>
        split at read
        next => exact ofText _ _ _ read
        next =>
          split at read
          next => exact ofList _ _ _ read
          next =>
            split at read
            next => exact ofObject _ _ _ read
            next => exact ofInt _ _ _ read

end LocaleLint.Json
