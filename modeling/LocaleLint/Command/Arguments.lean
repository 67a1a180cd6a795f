set_option autoImplicit false

namespace LocaleLint

structure Options where
  -- Where the translations lie; none is given by an absent or an empty argument.
  directory : Option String
  throwing : Bool
  ciMode : Bool
  json : Bool
  verbose : Bool
deriving Repr, DecidableEq, Inhabited

inductive Command
  | version
  | validate (options : Options)
deriving Repr, DecidableEq, Inhabited

namespace Options

def standard : Options := ⟨none, false, false, false, false⟩

def isFlag (argument : String) : Bool :=
  match argument.toList with
  | '-' :: _ :: _ => true
  | _ => false

def isLetterFlag (letter : Char) (argument : String) : Bool :=
  match argument.toList with
  | '-' :: letters => !letters.isEmpty && letters.all (· == letter)
  | _ => false

def withFlag (options : Options) (flag : String) : Option Options :=
  if flag = "--throw-parse-exception" then some { options with throwing := true }
  else if flag = "--ci" then some { options with ciMode := true }
  else if flag = "--json" then some { options with json := true }
  else if flag = "--verbose" || isLetterFlag 'V' flag then some { options with verbose := true }
  else none

def withDirectory (options : Options) (directory : String) : Option Options :=
  match options.directory with
  | none => some { options with directory := some directory }
  | some _ => none

def withDirectories (options : Options) : List String → Option Options
  | [] => some options
  | argument :: rest => (options.withDirectory argument).bind (·.withDirectories rest)

def withArguments (options : Options) : List String → Option Options
  | [] => some options
  | argument :: rest =>
      if argument = "--" then options.withDirectories rest
      else if isFlag argument then (options.withFlag argument).bind (·.withArguments rest)
      else (options.withDirectory argument).bind (·.withArguments rest)

def chosenDirectory (options : Options) : Option String := options.directory.filter (· != "")

end Options

namespace Command

def isVersionFlag (argument : String) : Bool :=
  argument = "--version" || Options.isLetterFlag 'v' argument

def ofName : List String → Option Command
  | [] => none
  | name :: rest =>
      if name = "validate" then (Options.standard.withArguments rest).map .validate else none

def afterVersion : List String → Option Command
  | [] => some .version
  | argument :: rest =>
      if isVersionFlag argument then afterVersion rest
      else if argument = "--" || !Options.isFlag argument then some .version
      else none

def ofArguments : List String → Option Command
  | [] => none
  | argument :: rest =>
      if isVersionFlag argument then afterVersion rest
      else if argument = "--" then ofName rest
      else ofName (argument :: rest)

end Command

end LocaleLint
