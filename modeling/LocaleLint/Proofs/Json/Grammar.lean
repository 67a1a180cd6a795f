import Mathlib.Data.List.Basic
import Mathlib.Tactic.IntervalCases
import LocaleLint.Json.Basic
import LocaleLint.Text.CodePoint
import LocaleLint.Text.DecimalDigit

set_option autoImplicit false

namespace LocaleLint.Json

def isBlank (c : Char) : Bool := c == ' ' || c == '\t' || c == '\n' || c == '\r'

def IsBlank (text : List Char) : Prop := ∀ c ∈ text, isBlank c = true

inductive IsNumeral : List Char → Prop
  | zero : IsNumeral ['0']
  | positive (first : Char) (rest : List Char) (digit : first.isDigit = true) (proper : first ≠ '0')
      (digits : ∀ c ∈ rest, c.isDigit = true) : IsNumeral (first :: rest)

inductive DenotesInt : List Char → Int → Prop
  | natural (digits : List Char) (numeral : IsNumeral digits) :
      DenotesInt digits (Nat.ofDigitChars 10 digits 0)
  | negative (digits : List Char) (numeral : IsNumeral digits) :
      DenotesInt ('-' :: digits) (-(Nat.ofDigitChars 10 digits 0 : Int))

-- What a letter behind a backslash stands for.
def shortEscape? : Char → Option Char
  | '"' => some '"'
  | '\\' => some '\\'
  | '/' => some '/'
  | 'b' => some '\x08'
  | 'f' => some '\x0c'
  | 'n' => some '\n'
  | 'r' => some '\r'
  | 't' => some '\t'
  | _ => none

structure IsCode (digits : List Char) (code : Nat) : Prop where
  length : digits.length = 4
  hex : ∀ c ∈ digits, Text.isHexDigit c = true
  value : Text.hexNumber digits = code

inductive DenotesChar : List Char → Char → Prop
  | plain (c : Char) (visible : ' ' ≤ c) (notQuote : c ≠ '"') (notBackslash : c ≠ '\\') :
      DenotesChar [c] c
  | short (letter c : Char) (meant : shortEscape? letter = some c) : DenotesChar ['\\', letter] c
  | code (digits : List Char) (c : Char) (spelled : IsCode digits c.toNat) :
      DenotesChar ('\\' :: 'u' :: digits) c
  | pair (first second : List Char) (high low : Nat) (c : Char) (spelledHigh : IsCode first high)
      (spelledLow : IsCode second low) (isHigh : Text.isHighSurrogate high = true)
      (isLow : Text.isLowSurrogate low = true) (paired : Text.pairCode high low = c.toNat) :
      DenotesChar ('\\' :: 'u' :: first ++ '\\' :: 'u' :: second) c

inductive DenotesChars : List Char → List Char → Prop
  | nil : DenotesChars [] []
  | cons (written more : List Char) (c : Char) (text : List Char) (here : DenotesChar written c)
      (later : DenotesChars more text) : DenotesChars (written ++ more) (c :: text)

inductive DenotesText : List Char → String → Prop
  | quoted (inner : List Char) (text : String) (spelled : DenotesChars inner text.toList) :
      DenotesText ('"' :: inner ++ ['"']) text

section Items
variable {α : Type} (denotes : List Char → α → Prop)

inductive Padded : List Char → α → Prop
  | around (before inner after : List Char) (item : α) (opens : IsBlank before)
      (given : denotes inner item) (closes : IsBlank after) : Padded (before ++ inner ++ after) item

inductive Separated : List Char → List α → Prop
  | last (written : List Char) (item : α) (given : Padded denotes written item) :
      Separated written [item]
  | more (written rest : List Char) (item : α) (items : List α)
    (given : Padded denotes written item)
      (later : Separated rest items) : Separated (written ++ ',' :: rest) (item :: items)

inductive Bracketed (opening closing : Char) : List Char → List α → Prop
  | empty (gap : List Char) (blank : IsBlank gap) :
    Bracketed opening closing (opening :: gap ++ [closing]) []
  | filled (inner : List Char) (items : List α) (separated : Separated denotes inner items) :
      Bracketed opening closing (opening :: inner ++ [closing]) items

end Items

/-- The name of a field, then its value behind a colon. -/
inductive DenotesField (denotes : List Char → Json → Prop) : List Char → String × Json → Prop
  | named (quoted before after written : List Char) (name : String) (value : Json)
      (spelled : DenotesText quoted name) (opens : IsBlank before) (closes : IsBlank after)
      (given : denotes written value) :
      DenotesField denotes (quoted ++ before ++ ':' :: after ++ written) (name, value)

inductive Denotes : List Char → Json → Prop
  | null : Denotes ['n', 'u', 'l', 'l'] .null
  | int (written : List Char) (value : Int) (spelled : DenotesInt written value) :
      Denotes written (.int value)
  | string (written : List Char) (text : String) (spelled : DenotesText written text) :
      Denotes written (.string text)
  | list (written : List Char) (items : List Json)
    (given : Bracketed Denotes '[' ']' written items) :
      Denotes written (.list items)
  | object (written : List Char) (fields : List (String × Json))
      (given : Bracketed (DenotesField Denotes) '\x7b' '\x7d' written fields) :
      Denotes written (.object fields)

@[elab_as_elim]
theorem induction {P : Json → Prop} (null : P .null) (int : ∀ value, P (.int value))
    (string : ∀ text, P (.string text)) (list : ∀ items, (∀ item ∈ items, P item) → P (.list items))
    (object : ∀ fields : List (String × Json), (∀ field ∈ fields, P field.2) → P (.object fields))
    (value : Json) : P value :=
  @Json.rec P (fun items => ∀ item ∈ items, P item) (fun fields => ∀ field ∈ fields, P field.2)
    (fun field => P field.2) null int string list object (fun _ none => nomatch none)
    (fun _ _ here later => List.forall_mem_cons.mpr ⟨here, later⟩) (fun _ none => nomatch none)
    (fun _ _ here later => List.forall_mem_cons.mpr ⟨here, later⟩) (fun _ _ here => here) value

theorem isBlank_nil : IsBlank [] := fun _ none => nomatch none

theorem isBlank_newLine (depth : Nat) : IsBlank (newLine depth) := by
  intro c member
  rcases List.mem_cons.mp member with rfl | member
  next => rfl
  next =>
    rw [List.eq_of_mem_replicate member]
    rfl

section Int

theorem head?_toDigits (n : Nat) (positive : 0 < n) : (Nat.toDigits 10 n).head? ≠ some '0' := by
  induction n using Nat.strongRecOn with
  | ind n ih =>
    by_cases small : n < 10
    next =>
      rw [Nat.toDigits_of_lt_base small]
      interval_cases n <;> decide
    next =>
      have leading := ih (n / 10) (by omega) (by omega)
      rw [Nat.toDigits_of_base_le (by decide) (by omega),
        List.head?_append_of_ne_nil _ Nat.toDigits_ne_nil]
      exact leading

theorem isNumeral_toDigits (n : Nat) : IsNumeral (Nat.toDigits 10 n) := by
  rcases Nat.eq_zero_or_pos n with rfl | positive
  next =>
    rw [Nat.toDigits_zero]
    exact .zero
  next =>
    have digits (c : Char) (member : c ∈ Nat.toDigits 10 n) : c.isDigit = true :=
      Nat.isDigit_of_mem_toDigits (by decide) (by decide) member
    have proper := head?_toDigits n positive
    cases spelled : Nat.toDigits 10 n with
    | nil => exact absurd spelled Nat.toDigits_ne_nil
    | cons first rest =>
      rw [spelled] at digits proper
      obtain ⟨digit, digits⟩ := List.forall_mem_cons.mp digits
      exact .positive first rest digit (by simpa using proper) digits

theorem denotesInt_toString (value : Int) : DenotesInt (toString value).toList value := by
  cases value with
  | ofNat n =>
    have spelled := DenotesInt.natural _ (isNumeral_toDigits n)
    rw [Nat.ofDigitChars_ten_toDigits] at spelled
    rw [show (toString (Int.ofNat n)).toList = Nat.toDigits 10 n from Nat.toList_repr]
    exact spelled
  | negSucc n =>
    have spelled := DenotesInt.negative _ (isNumeral_toDigits (n + 1))
    rw [Nat.ofDigitChars_ten_toDigits] at spelled
    have written : (toString (Int.negSucc n)).toList = '-' :: Nat.toDigits 10 (n + 1) := by
      change ("-" ++ (n + 1).repr).toList = _
      rw [String.toList_append, Nat.toList_repr]
      rfl
    rw [written]
    exact spelled

end Int

section Text

theorem isHexDigit_hexDigit (value : Nat) (small : value < 16) :
    Text.isHexDigit (Text.hexDigit value) = true := by
  interval_cases value <;> decide

theorem hexValue_hexDigit (value : Nat) (small : value < 16) :
    Text.hexValue (Text.hexDigit value) = value := by
  interval_cases value <;> decide

theorem isCode_hexDigits (code : Nat) (small : code < 16 ^ 4) :
    IsCode (Text.hexDigits 4 code) code where
  length := Text.length_hexDigits 4 code
  hex := by
    intro c member
    have one (value : Nat) : Text.isHexDigit (Text.hexDigit (value % 16)) = true :=
      isHexDigit_hexDigit _ (Nat.mod_lt _ (by decide))
    simp only [Text.hexDigits, List.nil_append, List.cons_append, List.mem_cons, List.not_mem_nil,
      or_false] at member
    rcases member with rfl | rfl | rfl | rfl <;> exact one _
  value := by
    have one (value : Nat) : Text.hexValue (Text.hexDigit (value % 16)) = value % 16 :=
      hexValue_hexDigit _ (Nat.mod_lt _ (by decide))
    simp only [Text.hexDigits, List.nil_append, List.cons_append, Text.hexNumber, List.foldl_cons,
      List.foldl_nil, one]
    omega

theorem denotesChar_escape (c : Char) : DenotesChar (escape c) c := by
  have short (letter meant : Char) (stands : shortEscape? letter = some meant) (same : c = meant) :
      DenotesChar ['\\', letter] c := .short letter c (same ▸ stands)
  unfold escape
  split
  next same => exact short '"' '"' rfl same
  next notQuote =>
    split
    next same => exact short '\\' '\\' rfl same
    next notBackslash =>
      -- The five control characters that have a letter.
      iterate 5
        split
        next same => exact short _ _ rfl same
      split
      next control =>
        have small : c.toNat < 32 := control
        exact .code _ c (isCode_hexDigits c.toNat (by omega))
      next visible => exact .plain c (Char.not_lt.mp visible) notQuote notBackslash

theorem denotesText_quote (text : String) : DenotesText (quote text) text := by
  have each (chars : List Char) : DenotesChars (chars.flatMap escape) chars := by
    induction chars with
    | nil => exact .nil
    | cons c rest ih => exact .cons _ _ c rest (denotesChar_escape c) ih
  exact .quoted _ text (each text.toList)

end Text

section Items
variable {α : Type} {denotes : List Char → α → Prop} {write : α → List Char}

theorem separated_flatMap (gap closing : List Char) (opens : IsBlank gap) (closes : IsBlank closing)
    (first : α) (items : List α) (each : ∀ item ∈ first :: items, denotes (write item) item) :
    Separated denotes
      (gap ++ write first ++ items.flatMap (fun item => ',' :: gap ++ write item) ++ closing)
      (first :: items) := by
  induction items generalizing first with
  | nil =>
    have given := each first (List.mem_cons_self ..)
    have padded := Padded.around gap _ closing first opens given closes
    simpa using Separated.last _ first padded
  | cons item items ih =>
    obtain ⟨given, others⟩ := List.forall_mem_cons.mp each
    have padded := Padded.around gap _ [] first opens given isBlank_nil
    have separated := Separated.more _ _ first _ padded (ih item others)
    simpa using separated

end Items

theorem writeItems_eq (depth : Nat) (items : List Json) :
    writeItems depth items = items.flatMap fun item => ',' :: newLine depth ++
      writeFrom depth item := by
  induction items with
  | nil => rfl
  | cons item rest ih => rw [writeItems, ih, List.flatMap_cons]

def writeField (depth : Nat) (field : String × Json) : List Char :=
  quote field.1 ++ [':', ' '] ++ writeFrom depth field.2

theorem writeFields_eq (depth : Nat) (fields : List (String × Json)) :
    writeFields depth fields = fields.flatMap fun field => ',' :: newLine depth ++
      writeField depth field := by
  induction fields with
  | nil => rfl
  | cons field rest ih =>
    rw [writeFields, ih, List.flatMap_cons]
    simp [writeField]

theorem denotesField_writeField (depth : Nat) (field : String × Json)
    (given : Denotes (writeFrom depth field.2) field.2) :
    DenotesField Denotes (writeField depth field) field := by
  have space : IsBlank [' '] := by simp [IsBlank, isBlank]
  have named :=
    DenotesField.named _ [] [' '] _ field.1 field.2 (denotesText_quote field.1) isBlank_nil
    space given
  simpa [writeField] using named

theorem denotes_writeFrom (depth : Nat) (value : Json) : Denotes (writeFrom depth value) value := by
  induction value using Json.induction generalizing depth with
  | null => exact .null
  | int value => exact .int _ value (denotesInt_toString value)
  | string text => exact .string _ text (denotesText_quote text)
  | list items each =>
    apply Denotes.list
    cases items with
    | nil => exact .empty [] isBlank_nil
    | cons item items =>
      have separated := separated_flatMap (newLine (depth + 1)) (newLine depth) (isBlank_newLine _)
        (isBlank_newLine _) item items fun other member => each other member (depth + 1)
      rw [← writeItems_eq] at separated
      simpa [writeFrom] using Bracketed.filled _ _ separated
  | object fields each =>
    apply Denotes.object
    cases fields with
    | nil => exact .empty [] isBlank_nil
    | cons field fields =>
      have separated := separated_flatMap (newLine (depth + 1)) (newLine depth) (isBlank_newLine _)
        (isBlank_newLine _) field fields fun other member =>
          denotesField_writeField (depth + 1) other (each other member (depth + 1))
      rw [← writeFields_eq] at separated
      simpa [writeFrom, writeField] using Bracketed.filled _ _ separated

end LocaleLint.Json
