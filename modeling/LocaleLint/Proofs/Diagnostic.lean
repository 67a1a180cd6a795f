import LocaleLint.Diagnostic

set_option autoImplicit false

namespace LocaleLint.Diagnostic

open LocaleLint.Yaml (DuplicateKey)

theorem throughTail_isSome (before after : List Char) :
    (throughTail (before ++ (DuplicateKey.tail ++ after))).isSome := by
  induction before with
  | nil =>
    obtain ⟨c, rest, whole⟩ : ∃ c rest, DuplicateKey.tail ++ after = c :: rest := ⟨_, _, rfl⟩
    have ends : DuplicateKey.tail.isPrefixOf (c :: rest) := by
      rw [← whole, List.isPrefixOf_iff_prefix]
      exact List.prefix_append _ _
    rw [List.nil_append, whole, throughTail, if_pos ends]
    rfl
  | cons c before ih =>
    rw [List.cons_append, throughTail]
    split
    · rfl
    · simpa using ih

theorem findDuplicate_head (rest found : List Char) (h : throughTail rest = some found) :
    findDuplicate (DuplicateKey.head ++ rest) = some (DuplicateKey.head ++ found) := by
  obtain ⟨c, more, whole⟩ : ∃ c more, DuplicateKey.head ++ rest = c :: more := ⟨_, _, rfl⟩
  have starts : DuplicateKey.head.isPrefixOf (DuplicateKey.head ++ rest) := by
    rw [List.isPrefixOf_iff_prefix]
    exact List.prefix_append _ _
  rw [whole, findDuplicate, ← whole, if_pos starts, List.drop_left, h]

theorem toList_textFor (d : DuplicateKey) (key : String) :
    ∃ ending, (d.textFor key).toList =
      DuplicateKey.head ++ (Yaml.escapeBreaks key.toList ++ (DuplicateKey.tail ++ ending)) := by
  obtain ⟨place, whole⟩ : ∃ place, d.textFor key = String.ofList
      (DuplicateKey.head ++ Yaml.escapeBreaks key.toList ++ DuplicateKey.tail) ++ place ++ "." :=
    ⟨_, rfl⟩
  refine ⟨(place ++ ".").toList, ?_⟩
  rw [whole, String.toList_append, String.toList_append, String.toList_append, String.toList_ofList]
  simp only [List.append_assoc]

structure FoundBehind (sought text before : List Char) : Prop where
  here : before ++ sought <+: text
  first : ∀ earlier, earlier ++ sought <+: text → before.length ≤ earlier.length

theorem FoundBehind.unique {sought text before other : List Char}
    (found : FoundBehind sought text before) (again : FoundBehind sought text other) :
    before = other := by
  have length := Nat.le_antisymm (found.first other again.here) (again.first before found.here)
  have one : before <+: text := (List.prefix_append _ _).trans found.here
  have two : other <+: text := (List.prefix_append _ _).trans again.here
  exact (List.prefix_of_prefix_length_le one two (Nat.le_of_eq length)).eq_of_length length

theorem FoundBehind.of_append {sought key after before : List Char}
    (found : FoundBehind sought (key ++ after) before) (inside : sought <:+: key) :
    FoundBehind sought key before := by
  obtain ⟨early, late, rfl⟩ := inside
  have place : early ++ sought <+: early ++ sought ++ late := List.prefix_append _ _
  have sooner := found.first early (place.trans (List.prefix_append _ _))
  constructor
  case here =>
    refine List.prefix_of_prefix_length_le found.here (List.prefix_append _ _) ?_
    simp only [List.length_append]
    omega
  case first => exact fun earlier here => found.first earlier (here.trans (List.prefix_append _ _))

theorem exists_foundBehind (text found : List Char) (through : throughTail text = some found) :
    ∃ before, found = before ++ DuplicateKey.tail ∧ FoundBehind DuplicateKey.tail text before := by
  induction text generalizing found with
  | nil => cases through
  | cons c rest ih =>
    rw [throughTail] at through
    by_cases here : DuplicateKey.tail <+: c :: rest
    next =>
      rw [if_pos (List.isPrefixOf_iff_prefix.mpr here)] at through
      cases through
      exact ⟨[], rfl, here, fun _ _ => Nat.zero_le _⟩
    next =>
      rw [if_neg fun starts => here (List.isPrefixOf_iff_prefix.mp starts)] at through
      obtain ⟨later, inside, rfl⟩ := Option.map_eq_some_iff.mp through
      obtain ⟨before, rfl, place, first⟩ := ih later inside
      refine ⟨c :: before, rfl, List.cons_prefix_cons.mpr ⟨rfl, place⟩, ?_⟩
      intro earlier starts
      cases earlier with
      | nil => exact absurd starts here
      | cons d earlier => exact Nat.succ_le_succ (first earlier (List.cons_prefix_cons.mp starts).2)

theorem foundBehind_key (key after : List Char) (none : ¬ DuplicateKey.tail <:+: key) :
    FoundBehind DuplicateKey.tail (key ++ (DuplicateKey.tail ++ after)) key := by
  constructor
  case here => exact ⟨after, List.append_assoc _ _ _⟩
  case first =>
    intro earlier starts
    rw [← Nat.not_lt]
    intro sooner
    have onlyQuote : ∀ k < DuplicateKey.tail.length, DuplicateKey.tail[k]? = some '"' → k = 0 := by
      decide
    -- An earlier place ends within the key, or it would cover the quote that closes the key.
    by_cases inside : earlier.length + DuplicateKey.tail.length ≤ key.length
    next =>
      have within : earlier ++ DuplicateKey.tail <+: key :=
        List.prefix_of_prefix_length_le starts (List.prefix_append _ _) (by simpa using inside)
      exact none ((List.suffix_append _ _).isInfix.trans within.isInfix)
    next =>
      have quote : (key ++ (DuplicateKey.tail ++ after))[key.length]? = some '"' := by
        rw [List.getElem?_append_right (Nat.le_refl _), Nat.sub_self]
        rfl
      obtain ⟨late, whole⟩ := starts
      rw [← whole, List.append_assoc, List.getElem?_append_right (Nat.le_of_lt sooner),
        List.getElem?_append_left (by omega)] at quote
      have zero := onlyQuote (key.length - earlier.length) (by omega) quote
      omega

structure Recognised (key text found : List Char) : Prop where
  starts : found <+: text
  unbroken : ∀ c ∈ found, Text.isBreak c = false
  whole : found = "Duplicate key \"".toList ++ key ++ "\" detected whilst parsing YAML".toList ↔
    ¬ "\" detected whilst parsing YAML".toList <:+: key
  cut : "\" detected whilst parsing YAML".toList <:+: key →
    ∃ before, FoundBehind "\" detected whilst parsing YAML".toList key before ∧
      found = "Duplicate key \"".toList ++ before ++ "\" detected whilst parsing YAML".toList

theorem head_eq : DuplicateKey.head = "Duplicate key \"".toList := rfl

theorem tail_eq : DuplicateKey.tail = "\" detected whilst parsing YAML".toList := rfl

theorem recognised_of_found (key ending before : List Char)
    (plain : ∀ c ∈ key, Text.isBreak c = false)
    (found : FoundBehind DuplicateKey.tail (key ++ (DuplicateKey.tail ++ ending)) before) :
    Recognised key (DuplicateKey.head ++ (key ++ (DuplicateKey.tail ++ ending)))
      (DuplicateKey.head ++ (before ++ DuplicateKey.tail)) := by
  have behindKey : key ++ DuplicateKey.tail <+: key ++ (DuplicateKey.tail ++ ending) := by
    rw [← List.append_assoc]
    exact List.prefix_append _ _
  have starts : before <+: key :=
    List.prefix_of_prefix_length_le ((List.prefix_append _ _).trans found.here)
      (List.prefix_append _ _) (found.first key behindKey)
  constructor
  case starts => exact (List.prefix_append_right_inj _).mpr found.here
  case unbroken =>
    have headPlain : ∀ c ∈ DuplicateKey.head, Text.isBreak c = false := by
      simp [DuplicateKey.head, Text.isBreak]
    have tailPlain : ∀ c ∈ DuplicateKey.tail, Text.isBreak c = false := by
      simp [DuplicateKey.tail, Text.isBreak]
    intro c member
    simp only [List.mem_append] at member
    rcases member with member | member | member
    · exact headPlain c member
    · exact plain c (starts.subset member)
    · exact tailPlain c member
  case whole =>
    rw [← head_eq, ← tail_eq, List.append_assoc]
    constructor
    · rintro same ⟨early, late, rfl⟩
      obtain rfl := List.append_cancel_right (List.append_cancel_left same)
      have sooner := found.first early (by simp)
      have some : 0 < DuplicateKey.tail.length := by decide
      simp only [List.length_append] at sooner
      omega
    · intro none
      rw [found.unique (foundBehind_key key ending none)]
  case cut =>
    rw [← head_eq, ← tail_eq]
    exact fun inside => ⟨before, found.of_append inside, by rw [List.append_assoc]⟩

theorem recognised_textFor (d : DuplicateKey) (key : String) :
    ∃ found, duplicateIn? (d.textFor key) = some found ∧
      Recognised (Yaml.escapeBreaks key.toList) (d.textFor key).toList found.toList := by
  obtain ⟨ending, written⟩ := toList_textFor d key
  obtain ⟨through, isThrough⟩ := Option.isSome_iff_exists.mp
    (throughTail_isSome (Yaml.escapeBreaks key.toList) ending)
  obtain ⟨before, rfl, found⟩ := exists_foundBehind _ _ isThrough
  refine ⟨String.ofList (DuplicateKey.head ++ (before ++ DuplicateKey.tail)), ?_, ?_⟩
  · rw [duplicateIn?, written, findDuplicate_head _ _ isThrough]
    rfl
  · rw [written, String.toList_ofList]
    exact recognised_of_found _ ending before (Yaml.escapeBreaks_no_break key.toList) found

theorem duplicateIn?_textFor (d : DuplicateKey) (key : String) :
    ∃ found, duplicateIn? (d.textFor key) = some found := by
  obtain ⟨found, matched, -⟩ := recognised_textFor d key
  exact ⟨found, matched⟩

theorem isWritable_iff (d : DuplicateKey) :
    d.isWritable = true ↔ (∀ i, d.key = .int i → i.natAbs < Nat.pow 10 Number.maxWrittenDigits) ∧
      ∀ line, d.line = some line → line.natAbs < Nat.pow 10 Number.maxWrittenDigits := by
  have key : d.key.isWritable = true ↔ ∀ i, d.key = .int i →
    i.natAbs < Nat.pow 10 Number.maxWrittenDigits := by
    cases d.key <;> simp [Yaml.Scalar.isWritable, Number.isWritable_iff]
  have line : d.line.all Number.isWritable = true ↔
      ∀ line, d.line = some line → line.natAbs < Nat.pow 10 Number.maxWrittenDigits := by
    cases d.line <;> simp [Number.isWritable_iff]
  rw [DuplicateKey.isWritable, Bool.and_eq_true, key, line]

/-- The diagnostic is made exactly when no number in it is too long, and is then recognised by its
text. -/
theorem text_recognised (d : DuplicateKey) :
    ((∃ text, d.text = .ok text) ↔
      (∀ i, d.key = .int i → i.natAbs < Nat.pow 10 Number.maxWrittenDigits) ∧
        ∀ line, d.line = some line → line.natAbs < Nat.pow 10 Number.maxWrittenDigits) ∧
    (∀ text, d.text = .ok text → (duplicateKey d).text = text ∧ ∃ found,
      duplicateIn? text = some found ∧
        Recognised (Yaml.escapeBreaks d.key.text.toList) text.toList found.toList) ∧
    ∀ text, d.escapedText? = some text → ∃ found, duplicateIn? text = some found ∧
      Recognised (Yaml.escapeBreaks d.key.escapedText.toList) text.toList found.toList := by
  refine ⟨?_, ?_, ?_⟩
  · rw [← isWritable_iff, DuplicateKey.text]
    cases d.isWritable <;> simp
  · intro text made
    rw [DuplicateKey.text] at made
    split at made
    · cases made
      exact ⟨rfl, recognised_textFor d d.key.text⟩
    · cases made
  · intro text escaped
    rw [DuplicateKey.escapedText?] at escaped
    split at escaped
    · cases escaped
      exact recognised_textFor d d.key.escapedText
    · cases escaped

theorem escalated?_eq_some (d : Diagnostic) (filename : Option String) (found : String)
    (matched : duplicateIn? d.text = some found) :
    ∃ r, d.escalated? filename = some r ∧ r.category = .duplicateKey ∧ r.message = found ∧
      r.line = d.line ∧ r.column = d.column ∧ r.filename = filename ∧ r.snippet = none := by
  unfold escalated?
  split
  · next missing => simp [matched] at missing
  · next other same =>
    rw [matched] at same
    cases same
    exact ⟨_, rfl, rfl, rfl, rfl, rfl, rfl, rfl⟩

theorem of_escalated (d : Diagnostic) (filename : Option String) (r : Rejection)
    (escalated : d.escalated? filename = some r) :
    r.category = .duplicateKey ∧ duplicateIn? d.text = some r.message ∧ r.line = d.line ∧
      r.column = d.column ∧ r.filename = filename ∧ r.snippet = none := by
  unfold escalated? at escalated
  split at escalated
  · cases escalated
  · next found matched =>
    cases escalated
    exact ⟨rfl, matched, rfl, rfl, rfl, rfl⟩

theorem escalated?_eq_none (d : Diagnostic) (filename : Option String)
    (unmatched : duplicateIn? d.text = none) : d.escalated? filename = none := by
  unfold escalated?
  split
  · rfl
  · next found matched => simp [unmatched] at matched

theorem escapedText_of_whole (key : Yaml.Scalar) (whole : key.isHalved = false) :
    key.escapedText = key.text := by
  cases key with
  | halved points => cases whole
  | _ => rfl

theorem escaped_of_duplicateKey (found : DuplicateKey) (filename : Option String) (r : Rejection)
    (escalated : (Diagnostic.duplicateKey found).escalated? filename = some r) :
    r.escaped.isSome ↔
      duplicateIn? (found.textFor found.key.escapedText) ≠ duplicateIn? found.wording := by
  obtain ⟨text, matched⟩ := duplicateIn?_textFor found found.key.text
  obtain ⟨other, written⟩ := duplicateIn?_textFor found found.key.escapedText
  have same : duplicateIn? found.wording = some text := matched
  unfold escalated? at escalated
  split at escalated
  · cases escalated
  · next part whole =>
    cases escalated
    have parts : some part = some text := by
      rw [← whole]
      exact same
    cases parts
    rw [same, written]
    cases halved : found.key.isHalved with
    | true => simp [escapedText?, DuplicateKey.escapedText?, halved, written, Option.filter]
    | false =>
      rw [escapedText_of_whole _ halved, matched] at written
      cases written
      simp [escapedText?, DuplicateKey.escapedText?, halved]

theorem escalated?_duplicateKey (found : DuplicateKey) (filename : Option String) :
    ∃ r, (Diagnostic.duplicateKey found).escalated? filename = some r := by
  obtain ⟨text, matched⟩ := duplicateIn?_textFor found found.key.text
  obtain ⟨r, escalated, _⟩ := escalated?_eq_some (.duplicateKey found) filename text matched
  exact ⟨r, escalated⟩

end LocaleLint.Diagnostic
