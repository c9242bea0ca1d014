import Grimoire.Fault

/-!
# Hosts

A script shows lines, saves texts and fills the clipboard by asking its host. A host answers every
request before the script goes on, and it may refuse.
-/

namespace Grimoire

/-- What a script asks of its host. -/
inductive Request where
  /-- To show a line. -/
  | reveal (text : Text)
  /-- To keep a text under a file name. -/
  | save (text filename : Text)
  /-- To put a text on the clipboard. -/
  | copy (text : Text)
  deriving DecidableEq, Repr

/-- A host answers requests and changes on the way. -/
class Host (σ : Type) where
  answer : Request → σ → Except HostFault Unit × σ

/-- A host that grants every request and writes it down. -/
structure Transcript where
  output : Array Text := #[]
  /-- File names with the texts saved under them, in order. -/
  saved : Array (Text × Text) := #[]
  /-- The last text copied. -/
  clipboard : Option Text := none
  deriving Repr

namespace Transcript

/-- Writes a request down. -/
def record (t : Transcript) : Request → Transcript
  | .reveal text => { t with output := t.output.push text }
  | .save text filename => { t with saved := t.saved.push (filename, text) }
  | .copy text => { t with clipboard := some text }

end Transcript

instance : Host Transcript where
  answer request t := (.ok (), t.record request)

end Grimoire
