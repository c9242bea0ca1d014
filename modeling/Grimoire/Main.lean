import Grimoire.CommandLine
import Std.Time.DateTime.Timestamp

/-!
# The terminal

The outermost layer: it takes a picture of the files that a command can meet, lets the command work
on the picture, and then writes to the disk and to the terminal what the report says.
-/

namespace Grimoire

namespace Terminal

/-- The names on the way to a path, from the root. -/
def namesOf (here : FilePath) (path : Text) : FilePath :=
  let names := (Text.splitOn '/' path).filter fun name => name ≠ [] ∧ name ≠ ['.']
  let start := if Text.startsWith ['/'] path then [] else here
  names.foldl (fun path name => if name = ['.', '.'] then path.dropLast else path ++ [name]) start

/-- The paths from the root down to a path. -/
def downTo (path : FilePath) : List FilePath :=
  (List.range (path.length + 1)).map path.take

/-- The text of a path from the root. -/
def textOf (path : FilePath) : String :=
  String.ofList ('/' :: Text.join ['/'] path)

/-- Adds what is at a path to a picture, unless it is known. The content of a file is read only if
it is wanted. -/
def picture (wanted : Bool) (files : Files) (path : FilePath) : IO Files := do
  if (files.kind? path).isSome then return files
  let place := (← IO.currentDir) / textOf path
  if ← place.isDir then return { files with directories := path :: files.directories }
  if ← place.pathExists then
    let content ← if wanted then IO.FS.readFile place else pure ""
    return { files with files := (path, content.toList) :: files.files }
  return files

/-- Adds a file and the directories above it. -/
def pictureFile (files : Files) (path : Text) : IO Files := do
  let names := namesOf files.here path
  let above ← (downTo names).dropLast.foldlM (picture false) files
  picture true above names

/-- Adds a directory, those above it and what is directly in it. -/
def pictureDirectory (files : Files) (path : Text) : IO Files := do
  let names := namesOf files.here path
  let files ← (downTo names).foldlM (picture false) files
  let place := (← IO.currentDir) / textOf names
  if !(← place.isDir) then return files
  let entries ← place.readDir
  entries.toList.foldlM (fun files entry => picture false files (names ++ [entry.fileName.toList]))
    files

/-- The usual place of the configuration file. -/
def usualConfig : IO (Option Text) := do
  let below (directory : String) : Text :=
    Console.joinPath directory.toList "arcana/arcana.toml".toList
  match ← IO.getEnv "XDG_CONFIG_HOME", ← IO.getEnv "HOME" with
  | some directory, home =>
    if Text.startsWith ['/'] directory.toList then return some (below directory)
    else return home.map fun home => below (home ++ "/.config")
  | none, home => return home.map fun home => below (home ++ "/.config")

/-- The reading of the clock. The terminal keeps the time of Greenwich. -/
def clock : IO Clock := do
  let seconds := (← Std.Time.Timestamp.now).val.second.val
  let now := (Timestamp.ofEpochSeconds? seconds).getD epoch
  return ⟨now, now⟩

/-- The directory in which a command saves texts. -/
def saveDirectory (w : World) : Command → Text
  | .check _ => ".".toList
  | .run _ o =>
    match Config.load w.files o.config w.usualConfig w.seedVariable with
    | .ok config => (Command.withOptions config o w.entropy).saveDirectoryOrHere
    | .error _ => ".".toList

/-- The world that a command meets. -/
def world (command : Command) : IO World := do
  let here := namesOf [] (← IO.currentDir).toString.toList
  let usual ← usualConfig
  let paths := match command with
    | .check script => [script]
    | .run script o => script :: (o.config <|> usual).toList
  let files ← paths.foldlM pictureFile { here }
  let w : World :=
    { files, usualConfig := usual, seedVariable := (← IO.getEnv "ARCANA_SEED").map String.toList
      entropy := UInt32.ofNat (← IO.rand 0 (UInt32.size - 1)), clock := ← clock }
  return { w with files := ← pictureDirectory files (saveDirectory w command) }

/-- Writes to the disk what a report has and the world had not. -/
def save (w : World) (report : Report) : IO Unit := do
  for (path, content) in report.files.files.reverse do
    if w.files.files.lookup path ≠ some content then
      IO.FS.createDirAll (textOf path.dropLast)
      IO.FS.writeFile (textOf path) (String.ofList content)

/-- How to call the program. -/
def usage : String :=
  "usage: arcanascript run SCRIPT [--config PATH] [--seed N | --random-seed] [--until-limit N]\n" ++
    "                        [--save-dir PATH] [--verbose]\n       arcanascript check SCRIPT"

/-- Carries out a command and gives its exit code. -/
def carryOut (command : Command) : IO UInt32 := do
  let w ← world command
  let report := command.report w
  save w report
  (← IO.getStdout).putStr (String.ofList report.output)
  (← IO.getStderr).putStr (String.ofList report.errors)
  return UInt32.ofNat report.exitCode

end Terminal

end Grimoire

/-- Carries out the command that the arguments give. -/
def main (arguments : List String) : IO UInt32 := do
  match Grimoire.Command.ofArguments? (arguments.map String.toList) with
  | some command => Grimoire.Terminal.carryOut command
  | none =>
    IO.eprintln Grimoire.Terminal.usage
    return 2
