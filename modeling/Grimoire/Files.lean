import Grimoire.Text.Basic

/-!
# Files

A picture of a file system: which paths are directories and which are files, and what the files
hold. A path is the list of the names on the way from the root. Texts that name paths are taken from
the working directory unless they begin with a slash.
-/

namespace Grimoire

/-- The reasons for which the file system refuses. -/
inductive FileFault where
  | notFound
  | fileExists
  | notADirectory
  | isADirectory
  | nameTooLong
  deriving DecidableEq, Repr

/-- The wording of a refusal. -/
def FileFault.message : FileFault → Text
  | notFound => "No such file or directory (os error 2)".toList
  | fileExists => "File exists (os error 17)".toList
  | notADirectory => "Not a directory (os error 20)".toList
  | isADirectory => "Is a directory (os error 21)".toList
  | nameTooLong => "File name too long (os error 36)".toList

/-- The names on the way from the root to a file or a directory. -/
abbrev FilePath := List Text

/-- What a path leads to. -/
inductive FileKind where
  | file (content : Text)
  | directory
  deriving DecidableEq, Repr

/-- A picture of a file system. The directories above a file or a directory need not be listed. -/
structure Files where
  /-- The working directory. -/
  here : FilePath := []
  directories : List FilePath := []
  files : List (FilePath × Text) := []
  deriving Repr

namespace Files

/-- The longest name of a file, in bytes. -/
def maxNameLength : Nat := 255

/-- What a path leads to, if it leads anywhere. -/
def kind? (f : Files) (path : FilePath) : Option FileKind :=
  match f.files.lookup path with
  | some content => some (.file content)
  | none =>
    if (f.here :: f.directories ++ f.files.map Prod.fst).any path.isPrefixOf then some .directory
    else none

/-- One step along a path. Names lead on from directories only, and the root is above itself. -/
def step (f : Files) (path : FilePath) (name : Text) : Except FileFault FilePath :=
  match f.kind? path with
  | none => .error .notFound
  | some (.file _) => .error .notADirectory
  | some .directory =>
    if name = [] ∨ name = ['.'] then .ok path
    else if name = ['.', '.'] then .ok path.dropLast
    else if maxNameLength < Text.byteLength name then .error .nameTooLong
    else .ok (path ++ [name])

/-- The path that a text names. All but the last step have to lead to directories. -/
def locate (f : Files) (text : Text) : Except FileFault FilePath :=
  match text with
  | [] => .error .notFound
  | '/' :: rest => (Text.splitOn '/' rest).foldlM f.step []
  | _ => (Text.splitOn '/' text).foldlM f.step f.here

/-- The content of the file that a text names. -/
def read (f : Files) (text : Text) : Except FileFault Text := do
  match f.kind? (← f.locate text) with
  | none => .error .notFound
  | some .directory => .error .isADirectory
  | some (.file content) => .ok content

/-- Makes one directory on the way, unless it is there. -/
def makeStep (place : Files × FilePath) (name : Text) : Except FileFault (Files × FilePath) := do
  let (f, path) := place
  let path ← f.step path name
  match f.kind? path with
  | some .directory => .ok (f, path)
  | some (.file _) => .error .fileExists
  | none => .ok ({ f with directories := path :: f.directories }, path)

/-- Makes the directories on a way in which all names but the last belong to directories. -/
def makeAlong (place : Files × FilePath) : List Text → Except FileFault (Files × FilePath)
  | [] => .ok place
  | name :: rest =>
    match makeStep place name with
    | .ok place => makeAlong place rest
    | .error .fileExists => .error (if rest.isEmpty then .fileExists else .notADirectory)
    | .error fault => .error fault

/-- Makes the directory that a text names and those above it. -/
def makeDirectory (f : Files) (text : Text) : Except FileFault Files :=
  let names (text : Text) := (Text.splitOn '/' text).filter fun name => name ≠ [] ∧ name ≠ ['.']
  match text with
  | [] => .ok f
  | '/' :: rest => (makeAlong (f, []) (names rest)).map Prod.fst
  | _ => (makeAlong (f, f.here) (names text)).map Prod.fst

/-- Puts a text into the file that a text names, in place of what it held. -/
def write (f : Files) (text content : Text) : Except FileFault Files := do
  let path ← f.locate text
  match f.kind? path with
  | some .directory => .error .isADirectory
  | _ =>
    .ok { f with files := (path, content) :: f.files.filter fun file => file.1 ≠ path }

/-- The path below the working directory, as a text. -/
def relative? (f : Files) (path : FilePath) : Option Text :=
  if f.here.isPrefixOf path then some (Text.join ['/'] (path.drop f.here.length)) else none

end Files

end Grimoire
