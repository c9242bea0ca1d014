import Grimoire.Text.Basic
import Grimoire.Xorshift

/-!
# Configuration
-/

namespace Grimoire

/-- The settings of a machine. -/
structure Config where
  /-- The word from which the random stream starts. -/
  seed : UInt32 := Xorshift.defaultSeed
  /-- The most rounds of an `until` loop. -/
  untilLimit : Nat := 10000
  /-- The most blocks inside one another. -/
  maxNesting : Nat := 256
  /-- Where saved texts go; the working directory unless it is set. -/
  saveDirectory : Option Text := none
  deriving DecidableEq, Repr

instance : Inhabited Config := ⟨{}⟩

/-- Where saved texts go. -/
def Config.saveDirectoryOrHere (c : Config) : Text :=
  c.saveDirectory.getD ".".toList

end Grimoire
