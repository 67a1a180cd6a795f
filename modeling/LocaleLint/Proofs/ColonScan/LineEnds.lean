import LocaleLint.ColonScan
import LocaleLint.Proofs.Text.Unbroken

set_option autoImplicit false

namespace LocaleLint.Text

def terminators : List String := ["\n", "\r\n", "\r"]

theorem unifyLineEnds_line (line rest : List Char) (plain : '\r' ∉ line) :
    unifyLineEnds (line ++ rest) = line ++ unifyLineEnds rest := by
  induction line with
  | nil => rfl
  | cons c line ih =>
    simp only [List.mem_cons, not_or] at plain
    rw [List.cons_append, unifyLineEnds, ih plain.2, if_neg (Ne.symm plain.1), List.cons_append]
    rintro - rfl
    exact absurd rfl plain.1

theorem unifyLineEnds_terminator (terminator : String) (ends : terminator ∈ terminators)
    (rest : List Char) (apart : terminator = "\r" → rest.head? ≠ some '\n') :
    unifyLineEnds (terminator.toList ++ rest) = '\n' :: unifyLineEnds rest := by
  simp only [terminators, List.mem_cons, List.not_mem_nil, or_false] at ends
  rcases ends with rfl | rfl | rfl
  · simp [unifyLineEnds]
  · simp [unifyLineEnds]
  · -- A lone return takes a feed behind it for its own, so none may stand there.
    change unifyLineEnds ('\r' :: rest) = '\n' :: unifyLineEnds rest
    rw [unifyLineEnds, if_pos rfl]
    rintro later - rfl
    exact apart rfl rfl

theorem unifyLineEnds_intercalate (terminator : String) (ends : terminator ∈ terminators)
    (lines : List String) (plain : ∀ line ∈ lines, '\r' ∉ line.toList ∧ '\n' ∉ line.toList) :
    unifyLineEnds (terminator.intercalate lines).toList = ("\n".intercalate lines).toList := by
  induction lines with
  | nil => simp [unifyLineEnds]
  | cons line rest ih =>
    have later := ih fun other member => plain other (List.mem_cons_of_mem _ member)
    obtain ⟨noReturn, -⟩ := plain line (List.mem_cons_self ..)
    cases rest with
    | nil => simpa [unifyLineEnds] using unifyLineEnds_line line.toList [] noReturn
    | cons next rest =>
      -- Where lone returns stand between the lines there is no feed anywhere.
      have apart : terminator = "\r" →
          (terminator.intercalate (next :: rest)).toList.head? ≠ some '\n' := by
        rintro rfl starts
        have unbroken := (isUnbroken_intercalate "\r" (by decide) (next :: rest)).mpr
          fun other member => (plain other (List.mem_cons_of_mem _ member)).2
        exact unbroken (List.mem_of_mem_head? starts)
      simp only [String.intercalate_cons_cons, String.toList_append, List.append_assoc]
      rw [unifyLineEnds_line _ _ noReturn, unifyLineEnds_terminator _ ends _ apart, later]
      rfl

end LocaleLint.Text

namespace LocaleLint.ColonScan

open LocaleLint.Text

theorem check_intercalate (terminator : String) (ends : terminator ∈ terminators)
    (lines : List String) (plain : ∀ line ∈ lines, '\r' ∉ line.toList ∧ '\n' ∉ line.toList)
    (filename : Option String) :
    normalize (terminator.intercalate lines).toList = normalize ("\n".intercalate lines).toList ∧
      check (terminator.intercalate lines) filename = check ("\n".intercalate lines) filename := by
  have same : normalize (terminator.intercalate lines).toList =
      normalize ("\n".intercalate lines).toList := by
    simp only [normalize, unifyLineEnds_intercalate terminator ends lines plain,
      unifyLineEnds_intercalate "\n" (by decide) lines plain]
  refine ⟨same, ?_⟩
  simp only [check, same]

def page : List String := ["# greetings", "--- x", "", "hello: Hi", "", "bye:Bye", "", "...", ""]

theorem check_page :
    "\r" ∈ terminators ∧ (∀ line ∈ page, '\r' ∉ line.toList ∧ '\n' ∉ line.toList) ∧
      normalize ("\r".intercalate page).toList = normalize ("\n".intercalate page).toList ∧
      check ("\r".intercalate page) none = check ("\n".intercalate page) none ∧
      (check ("\r".intercalate page) none).map (fun r => (r.line, r.column, r.snippet)) =
        some (some 6, some 5, some "bye:Bye") := by
  have ends : "\r" ∈ terminators := by decide
  have plain : ∀ line ∈ page, '\r' ∉ line.toList ∧ '\n' ∉ line.toList := by decide
  obtain ⟨normalized, checked⟩ := check_intercalate "\r" ends page plain none
  exact ⟨ends, plain, normalized, checked, by cbv⟩

end LocaleLint.ColonScan
