import LocaleLint.Command.Arguments

set_option autoImplicit false

namespace LocaleLint

namespace Options

def isTelling (argument : String) : Bool :=
  argument = "--ci" || argument = "--json" || argument = "--verbose" || isLetterFlag 'V' argument

def withoutTelling : List String → List String
  | [] => []
  | argument :: rest =>
      if argument = "--" then argument :: rest
      else if isTelling argument then withoutTelling rest
      else argument :: withoutTelling rest

def quiet (options : Options) : Options :=
  { options with ciMode := false, json := false, verbose := false }

theorem isFlag_of_isLetterFlag (letter : Char) (argument : String)
    (isLetter : isLetterFlag letter argument = true) : isFlag argument = true := by
  unfold isLetterFlag at isLetter
  unfold isFlag
  split at isLetter
  · next letters whole =>
    cases letters with
    | nil => simp at isLetter
    | cons c letters =>
      rw [whole]
      rfl
  · cases isLetter

theorem isFlag_of_isTelling (argument : String) (telling : isTelling argument = true) :
    isFlag argument = true := by
  simp only [isTelling, Bool.or_eq_true, decide_eq_true_eq] at telling
  rcases telling with ((rfl | rfl) | rfl) | letter
  · decide
  · decide
  · decide
  · exact isFlag_of_isLetterFlag 'V' argument letter

theorem withFlag_of_isTelling (options : Options) (flag : String)
    (telling : isTelling flag = true) :
    ∃ told, options.withFlag flag = some told ∧ told.quiet = options.quiet := by
  simp only [isTelling, Bool.or_eq_true, decide_eq_true_eq] at telling
  unfold withFlag
  by_cases throwing : flag = "--throw-parse-exception"
  next =>
    -- This flag is none of those, and no row of one letter either.
    exfalso
    subst throwing
    revert telling
    decide
  next =>
    rw [if_neg throwing]
    by_cases ci : flag = "--ci"
    next => exact ⟨_, if_pos ci, rfl⟩
    next =>
      rw [if_neg ci]
      by_cases json : flag = "--json"
      next => exact ⟨_, if_pos json, rfl⟩
      next =>
        rw [if_neg json]
        have verbose : (flag = "--verbose" || isLetterFlag 'V' flag) = true := by
          simpa [ci, json] using telling
        exact ⟨_, if_pos verbose, rfl⟩

theorem withFlag_of_other (options : Options) (flag : String) (other : isTelling flag = false) :
    options.withFlag flag =
      if flag = "--throw-parse-exception" then some { options with throwing := true }
        else none := by
  simp only [isTelling, Bool.or_eq_false_iff, decide_eq_false_iff_not] at other
  obtain ⟨⟨⟨ci, json⟩, verbose⟩, letter⟩ := other
  simp [withFlag, ci, json, verbose, letter]

theorem withDirectory_quiet (options : Options) (directory : String) :
    (options.withDirectory directory).map quiet = options.quiet.withDirectory directory := by
  obtain ⟨chosen, throwing, ciMode, json, verbose⟩ := options
  cases chosen <;> rfl

theorem withDirectories_quiet (options : Options) (arguments : List String) :
    (options.withDirectories arguments).map quiet = options.quiet.withDirectories arguments := by
  induction arguments generalizing options with
  | nil => rfl
  | cons argument rest ih =>
    rw [withDirectories, withDirectories, ← withDirectory_quiet]
    cases options.withDirectory argument with
    | none => rfl
    | some next => exact ih next

theorem withArguments_quiet (options : Options) (arguments : List String) :
    (options.withArguments arguments).map quiet =
      options.quiet.withArguments (withoutTelling arguments) := by
  induction arguments generalizing options with
  | nil => rfl
  | cons argument rest ih =>
    rw [withArguments, withoutTelling]
    by_cases dashes : argument = "--"
    next =>
      rw [if_pos dashes, if_pos dashes, withArguments, if_pos dashes]
      exact withDirectories_quiet options rest
    next =>
      rw [if_neg dashes, if_neg dashes]
      by_cases telling : isTelling argument = true
      next =>
        obtain ⟨told, taken, same⟩ := withFlag_of_isTelling options argument telling
        rw [if_pos telling, if_pos (isFlag_of_isTelling argument telling), taken, ← same]
        exact ih told
      next =>
        rw [if_neg telling, withArguments, if_neg dashes]
        by_cases flag : isFlag argument = true
        next =>
          have other : isTelling argument = false := by simpa using telling
          rw [if_pos flag, if_pos flag, withFlag_of_other _ _ other, withFlag_of_other _ _ other]
          by_cases throws : argument = "--throw-parse-exception"
          next =>
            rw [if_pos throws, if_pos throws]
            exact ih { options with throwing := true }
          next =>
            rw [if_neg throws, if_neg throws]
            rfl
        next =>
          rw [if_neg flag, if_neg flag, ← withDirectory_quiet]
          cases options.withDirectory argument with
          | none => rfl
          | some next => exact ih next

def throwFlag : String := "--throw-parse-exception"

-- Whether the flag stands where it is one.
def asksToThrow (arguments : List String) : Bool :=
  (arguments.takeWhile (· != "--")).contains throwFlag

theorem asksToThrow_dashes (rest : List String) : asksToThrow ("--" :: rest) = false := by
  simp [asksToThrow]

theorem asksToThrow_cons (argument : String) (rest : List String) (inside : argument ≠ "--") :
    asksToThrow (argument :: rest) = (argument == throwFlag || asksToThrow rest) := by
  rw [asksToThrow, List.takeWhile_cons_of_pos (by simpa using inside), List.contains_cons, BEq.comm]
  rfl

theorem throwing_withDirectory (options told : Options) (directory : String)
    (read : options.withDirectory directory = some told) : told.throwing = options.throwing := by
  unfold withDirectory at read
  split at read
  · cases read
    rfl
  · cases read

theorem throwing_withDirectories (options told : Options) (arguments : List String)
    (read : options.withDirectories arguments = some told) : told.throwing = options.throwing := by
  induction arguments generalizing options with
  | nil =>
    cases read
    rfl
  | cons argument rest ih =>
    obtain ⟨next, first, later⟩ := Option.bind_eq_some_iff.mp read
    rw [ih next later, throwing_withDirectory options next argument first]

theorem throwing_withFlag (options told : Options) (flag : String)
    (read : options.withFlag flag = some told) :
    told.throwing = (options.throwing || flag == throwFlag) := by
  by_cases telling : isTelling flag = true
  next =>
    obtain ⟨same, taken, alike⟩ := withFlag_of_isTelling options flag telling
    rw [taken] at read
    cases read
    have other : (flag == throwFlag) = false := by
      rw [beq_eq_false_iff_ne]
      rintro rfl
      revert telling
      decide
    have throws : told.quiet.throwing = options.quiet.throwing := by rw [alike]
    rw [other, Bool.or_false]
    exact throws
  next =>
    rw [withFlag_of_other options flag (by simpa using telling)] at read
    by_cases throws : flag = "--throw-parse-exception"
    next =>
      rw [if_pos throws] at read
      cases read
      simp [throws, throwFlag]
    next =>
      rw [if_neg throws] at read
      cases read

theorem throwing_withArguments (options told : Options) (arguments : List String)
    (read : options.withArguments arguments = some told) :
    told.throwing = (options.throwing || asksToThrow arguments) := by
  induction arguments generalizing options with
  | nil =>
    cases read
    simp [asksToThrow]
  | cons argument rest ih =>
    rw [withArguments] at read
    by_cases dashes : argument = "--"
    next =>
      rw [if_pos dashes] at read
      rw [dashes, asksToThrow_dashes, Bool.or_false]
      exact throwing_withDirectories options told rest read
    next =>
      rw [if_neg dashes] at read
      rw [asksToThrow_cons argument rest dashes]
      by_cases flag : isFlag argument = true
      next =>
        rw [if_pos flag] at read
        obtain ⟨next, first, later⟩ := Option.bind_eq_some_iff.mp read
        rw [ih next later, throwing_withFlag options next argument first, Bool.or_assoc]
      next =>
        rw [if_neg flag] at read
        obtain ⟨next, first, later⟩ := Option.bind_eq_some_iff.mp read
        have other : (argument == throwFlag) = false := by
          rw [beq_eq_false_iff_ne]
          rintro rfl
          exact flag (by decide)
        rw [ih next later, throwing_withDirectory options next argument first, other, Bool.false_or]

end Options

theorem Command.ofArguments_validate (arguments : List String) :
    ofArguments ("validate" :: arguments) =
      (Options.standard.withArguments arguments).map .validate := by
  have named : isVersionFlag "validate" = false := by decide
  simp [ofArguments, named, ofName]

theorem Command.withArguments_of_validate (arguments : List String) (options : Options)
    (asked : ofArguments ("validate" :: arguments) = some (.validate options)) :
    Options.standard.withArguments arguments = some options := by
  rw [ofArguments_validate] at asked
  obtain ⟨same, taken, equal⟩ := Option.map_eq_some_iff.mp asked
  cases equal
  exact taken

theorem Command.throwing_of_validate (arguments : List String) (options : Options)
    (asked : ofArguments ("validate" :: arguments) = some (.validate options)) :
    options.throwing = Options.asksToThrow arguments :=
  Options.throwing_withArguments _ _ _ (withArguments_of_validate arguments options asked)

theorem Command.quiet_of_validate (arguments others : List String) (options other : Options)
    (asked : ofArguments ("validate" :: arguments) = some (.validate options))
    (alsoAsked : ofArguments ("validate" :: others) = some (.validate other))
    (same : Options.withoutTelling others = Options.withoutTelling arguments) :
    other.quiet = options.quiet := by
  have alike := Options.withArguments_quiet .standard others
  rw [same, ← Options.withArguments_quiet, withArguments_of_validate others other alsoAsked,
    withArguments_of_validate arguments options asked] at alike
  exact Option.some.inj alike

end LocaleLint
