import Grimoire.Config
import Grimoire.Config.Toml
import Grimoire.Files

/-!
# Configuration files

A configuration file may set any of the four settings; the others keep their defaults. The seed may
be overridden by a variable of the environment.
-/

namespace Grimoire

/-- The reasons for which there is no configuration. -/
inductive ConfigFault where
  | reading (path : Text) (cause : FileFault)
  | parsing (path : Text)
  /-- The variable for the seed holds no number; `cause` says why. -/
  | seed (cause : Text)
  deriving DecidableEq, Repr

namespace ConfigFault

/-- What failed. -/
def context : ConfigFault → Text
  | reading path _ => "reading configuration from ".toList ++ path
  | parsing path => "parsing configuration ".toList ++ path
  | seed _ => "ARCANA_SEED must be a 32-bit unsigned integer".toList

/-- What failed and why. -/
def message (fault : ConfigFault) : Text :=
  match fault with
  | reading _ cause => fault.context ++ ": ".toList ++ cause.message
  | parsing _ => fault.context
  | seed cause => fault.context ++ ": ".toList ++ cause

end ConfigFault

namespace Config

/-! ## Reading -/

/-- A setting that has to be an integer below a bound. -/
def natSetting? (settings : Table Setting) (key : String) (default bound : Nat) : Option Nat :=
  match settings.get? key.toList with
  | none => some default
  | some (.integer i) => if 0 ≤ i ∧ i < bound then some i.toNat else none
  | some _ => none

/-- A setting that has to be a string. -/
def textSetting? (settings : Table Setting) (key : String) : Option (Option Text) :=
  match settings.get? key.toList with
  | none => some none
  | some (.string text) => some (some text)
  | some _ => none

/-- The configuration of a text. Settings under other names are ignored. -/
def ofText? (text : Text) : Option Config := do
  let settings ← Setting.table? text
  let default : Config := {}
  let seed ← natSetting? settings "seed" default.seed.toNat UInt32.size
  let untilLimit ← natSetting? settings "until_limit" default.untilLimit Setting.integerBound
  let maxNesting ← natSetting? settings "max_nesting" default.maxNesting Setting.integerBound
  let saveDirectory ← textSetting? settings "save_dir"
  return { seed := UInt32.ofNat seed, untilLimit, maxNesting, saveDirectory }

/-- The configuration in a file. -/
def ofFile (files : Files) (path : Text) : Except ConfigFault Config :=
  match files.read path with
  | .error cause => .error (.reading path cause)
  | .ok text =>
    match ofText? text with
    | some config => .ok config
    | none => .error (.parsing path)

/-! ## The seed of the environment -/

/-- The number of 32 bits that digits stand for after the digits of `n`, or else why there is none:
the first digit that is none or takes the number too far decides. -/
def seedFrom (n : Nat) : Text → Except Text UInt32
  | [] => .ok (UInt32.ofNat n)
  | c :: rest =>
    if !c.isDigit then .error "invalid digit found in string".toList
    else
      let n := n * 10 + Setting.digitValue c
      if n < UInt32.size then seedFrom n rest
      else .error "number too large to fit in target type".toList

/-- The number of 32 bits that a text stands for. It may have a plus sign before its digits. -/
def seedOf (text : Text) : Except Text UInt32 :=
  match (Text.dropFirst? '+' text).getD text with
  | [] => .error "invalid digit found in string".toList
  | digits => seedFrom 0 digits

/-- The configuration with the seed of the environment, if that sets one. -/
def withSeedOf (config : Config) (variableText : Option Text) : Except ConfigFault Config :=
  match variableText.map Text.trim with
  | none | some [] => .ok config
  | some text =>
    match seedOf text with
    | .ok seed => .ok { config with seed }
    | .error cause => .error (.seed cause)

/-- Whether a text names a file or a directory. -/
def isThere (files : Files) (path : Text) : Bool :=
  match files.locate path with
  | .ok path => (files.kind? path).isSome
  | .error _ => false

/-- The configuration to run under: that of the file given, which has to be there, or of the file in
the usual place, which need not be. -/
def load (files : Files) (given usual variableText : Option Text) : Except ConfigFault Config := do
  let config ← match given, usual with
    | some path, _ => ofFile files path
    | none, some path => if isThere files path then ofFile files path else pure {}
    | none, none => pure {}
  config.withSeedOf variableText

/-! ## Writing -/

/-- The text of a configuration. -/
def toText (config : Config) : Text :=
  "seed = ".toList ++ Text.ofNat config.seed.toNat ++ "\nuntil_limit = ".toList
    ++ Text.ofNat config.untilLimit ++ "\nmax_nesting = ".toList ++ Text.ofNat config.maxNesting
    ++ config.saveDirectory.elim [] (fun directory =>
      "\nsave_dir = ".toList ++ Setting.writeString directory)
    ++ ['\n']

end Config

end Grimoire
