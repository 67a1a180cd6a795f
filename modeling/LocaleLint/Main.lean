import LocaleLint.Command.Run

set_option autoImplicit false

namespace LocaleLint

def usage : String :=
  "Usage: transval [--version] validate [--throw-parse-exception] [--ci] [--json] " ++
    "[--verbose] [DIRECTORY]"

def pictureFile (place : String) : IO (Option Tree) := do
  try
    return some (.file (← IO.FS.readBinFile place).toList)
  catch _ =>
    return none

partial def pictureDirectory (place : String) : IO Tree := do
  let mut entries : List (String × Tree) := []
  for entry in ← (← IO.FS.realPath place).readDir do
    let path := entry.path.toString
    let found ← match (← entry.path.symlinkMetadata).type with
      | .dir => some <$> pictureDirectory path
      | .file => pictureFile path
      | .symlink => if ← entry.path.isDir then pure none else pictureFile path
      | .other => pure none
    if let some tree := found then
      entries := (entry.fileName, tree) :: entries
  return .directory entries.reverse

def picture (place : String) : IO (Option Tree) := do
  try
    if ← (← IO.FS.realPath place).isDir then some <$> pictureDirectory place else pictureFile place
  catch _ =>
    return none

def beginnings (parts : List String) : List (List String) :=
  (List.range (parts.length + 1)).map parts.take

def pictureConfigs (workingDirectory : List String) : IO Tree := do
  let mut tree := Tree.insert workingDirectory .empty .empty
  for directory in beginnings workingDirectory do
    let place := directory ++ [configName]
    if let some file ← pictureFile (Path.absolute place).toString then
      tree := Tree.insert place file tree
  return tree

def withPictureOf (fs : FileSystem) (root : Path) : IO FileSystem := do
  match ← picture root.toString with
  | none => return fs
  | some found =>
      let places := (beginnings root.parts).map (FileSystem.append (fs.start root))
      let tree := places.foldl (fun tree place => Tree.insert place .empty tree) fs.tree
      return { fs with
        tree := Tree.insert (FileSystem.append (fs.start root) root.parts) found tree }

def surroundings (command : Command) : IO Surroundings := do
  let workingDirectory := (Path.ofString (← IO.currentDir).toString).parts
  let fs : FileSystem := ⟨← pictureConfigs workingDirectory, workingDirectory⟩
  let build ← IO.getEnv "CI"
  -- No encodings are installed beside those that are read here.
  let around (fs : FileSystem) : Surroundings :=
    ⟨fs, build, fun name _ => .error (.unknownEncoding name), .asWritten⟩
  match command with
  | .version => return around fs
  | .validate options =>
      match options.plan .asWritten fs with
      | .error _ => return around fs
      | .ok plan => return around (← withPictureOf fs plan.root)

def tellEnding (ending : Ending) : IO Unit :=
  match ending with
  | .exit _ => return ()
  | .invalid _ => IO.eprintln failureHeadline
  | .aborted _ => IO.eprintln "Error: the run could not be completed"

end LocaleLint

open LocaleLint in
def main (arguments : List String) : IO UInt32 := do
  match Command.ofArguments arguments with
  | none =>
      IO.eprintln usage
      return 2
  | some command =>
      let run := command.run (← surroundings command)
      IO.print run.output
      IO.eprint run.errors
      tellEnding run.ending
      return UInt32.ofNat run.ending.exitCode
