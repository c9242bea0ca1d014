import Grimoire.Files
import Grimoire.Host

/-!
# The console

The host of the command line shows lines on the terminal, saves texts as files in one directory and
keeps the clipboard to itself. Only the last name of a requested file name counts, so nothing is
saved outside the directory.
-/

namespace Grimoire

/-- The host of the command line. -/
structure Console where
  saveDirectory : Text
  files : Files := {}
  shown : Array Text := #[]
  clipboard : Option Text := none

namespace Console

/-- The last name of a path; none if the path has no names or its last one is two points. -/
def lastName? (filename : Text) : Option Text :=
  match ((Text.splitOn '/' filename).filter fun name => name ≠ [] ∧ name ≠ ['.']).getLast? with
  | some ['.', '.'] => none
  | last => last

/-- A name put after a directory. -/
def joinPath (directory name : Text) : Text :=
  if directory.isEmpty || directory.getLast? == some '/' then directory ++ name
  else directory ++ '/' :: name

/-- The path under which a text is saved. -/
def resolve (directory filename : Text) : Except HostFault Text :=
  match lastName? filename with
  | some name => .ok (joinPath directory name)
  | none => .error (.invalidFileName filename)

/-- The files after a text is saved. -/
def saved (c : Console) (text filename : Text) : Except HostFault Files := do
  let path ← resolve c.saveDirectory filename
  match c.files.makeDirectory c.saveDirectory with
  | .error fault => .error (.io fault.message)
  | .ok files =>
    match files.write path text with
    | .error fault => .error (.io fault.message)
    | .ok files => .ok files

/-- The answer to a request. -/
def respond (c : Console) : Request → Except HostFault Unit × Console
  | .reveal text => (.ok (), { c with shown := c.shown.push text })
  | .save text filename =>
    match c.saved text filename with
    | .ok files => (.ok (), { c with files })
    | .error fault => (.error fault, c)
  | .copy text => (.ok (), { c with clipboard := some text })

end Console

instance : Host Console where
  answer request c := c.respond request

end Grimoire
