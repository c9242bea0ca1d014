import Grimoire.Config.File
import Grimoire.Console
import Grimoire.Library.Standard
import Grimoire.Program.Check
import Grimoire.Program.Run

/-!
# The command line

`run` executes a script and `check` examines one. A command is a function from a picture of the
world to a report: what is written to the terminal, the exit code and the files afterwards.
-/

namespace Grimoire

/-! ## Commands -/

/-- The options of `run`. -/
structure RunOptions where
  config : Option Text := none
  seed : Option UInt32 := none
  randomSeed : Bool := false
  untilLimit : Option Nat := none
  saveDirectory : Option Text := none
  verbose : Bool := false
  deriving DecidableEq, Repr

/-- A command. -/
inductive Command where
  | run (script : Text) (options : RunOptions)
  | check (script : Text)
  deriving DecidableEq, Repr

namespace Command

/-- The number that digits with an optional plus sign stand for, if it is below a bound. -/
def natArgument? (bound : Nat) (text : Text) : Option Nat :=
  let digits := (Text.dropFirst? '+' text).getD text
  if digits.isEmpty || !digits.all Char.isDigit then none
  else
    let n := Setting.natOf 10 digits
    if n < bound then some n else none

/-- The seed that an argument stands for. A zero may have a minus sign. -/
def seedArgument? (text : Text) : Option UInt32 :=
  let zero := (Text.dropFirst? '-' text).filter fun digits =>
    !digits.isEmpty && digits.all (· == '0')
  ((zero.map fun _ => 0) <|> natArgument? UInt32.size text).map UInt32.ofNat

/-- An argument that names a file or a directory, which may not be empty. -/
def pathArgument? (text : Text) : Option Text :=
  if text.isEmpty then none else some text

/-- The options with the value of one more; no option is given twice. -/
def withValue? (o : RunOptions) (name value : Text) : Option RunOptions :=
  if name = "config".toList ∧ o.config.isNone then
    (pathArgument? value).map fun path => { o with config := some path }
  else if name = "seed".toList ∧ o.seed.isNone then
    (seedArgument? value).map fun seed => { o with seed := some seed }
  else if name = "until-limit".toList ∧ o.untilLimit.isNone then
    (natArgument? UInt64.size value).map fun limit => { o with untilLimit := some limit }
  else if name = "save-dir".toList ∧ o.saveDirectory.isNone then
    (pathArgument? value).map fun path => { o with saveDirectory := some path }
  else none

/-- The options with one more switch; no switch is given twice. -/
def withSwitch? (o : RunOptions) (name : Text) : Option RunOptions :=
  if name = "random-seed".toList ∧ !o.randomSeed then some { o with randomSeed := true }
  else if name = "verbose".toList ∧ !o.verbose then some { o with verbose := true }
  else none

/-- How far the arguments of a command are read. -/
structure Reading where
  script : Option Text := none
  options : RunOptions := {}
  /-- The option that waits for its value. -/
  pending : Option Text := none
  /-- Whether two dashes have ended the options. -/
  ended : Bool := false

/-- Whether an argument has the form of an option. -/
def looksLikeOption (argument : Text) : Bool :=
  Text.startsWith ['-'] argument && argument != ['-']

/-- Takes an argument as the script. -/
def takeScript? (r : Reading) (argument : Text) : Option Reading :=
  if r.script.isSome then none
  else (pathArgument? argument).map fun path => { r with script := some path }

/-- Takes an option: a switch, an option with its value after an equals sign, or one whose value is
the next argument. -/
def takeOption? (r : Reading) (option : Text) : Option Reading :=
  let name := option.takeWhile (· ≠ '=')
  match option.drop name.length with
  | _ :: value => (withValue? r.options name value).map fun options => { r with options }
  | [] =>
    match withSwitch? r.options name with
    | some options => some { r with options }
    | none => some { r with pending := some name }

/-- Takes one more argument. Options stand anywhere before two dashes. -/
def take? (r : Reading) (argument : Text) : Option Reading :=
  match r.pending with
  | some name =>
    if looksLikeOption argument then none
    else (withValue? r.options name argument).map fun options =>
      { r with options, pending := none }
  | none =>
    if r.ended then takeScript? r argument
    else match argument with
      | ['-', '-'] => some { r with ended := true }
      | '-' :: '-' :: option => takeOption? r option
      | ['-', 'v'] =>
        (withSwitch? r.options "verbose".toList).map fun options => { r with options }
      | _ => if looksLikeOption argument then none else takeScript? r argument

/-- The script and the options among arguments. -/
def read? (arguments : List Text) : Option (Text × RunOptions) := do
  let r ← arguments.foldlM take? {}
  let script ← r.script
  if r.pending.isSome then none else some (script, r.options)

/-- The command that arguments give; none if they break the rules. A seed and a random seed exclude
each other. -/
def ofArguments? : List Text → Option Command
  | [] => none
  | verb :: rest =>
    match read? rest with
    | some (script, o) =>
      if verb = "run".toList then
        if o.seed.isSome ∧ o.randomSeed then none else some (run script o)
      else if verb = "check".toList ∧ o = {} then some (check script)
      else none
    | none => none

end Command

/-! ## Reports -/

/-- What a command finds. -/
structure World where
  files : Files
  /-- The usual place of the configuration file. -/
  usualConfig : Option Text
  /-- The variable of the environment for the seed. -/
  seedVariable : Option Text
  /-- A seed drawn from the system. -/
  entropy : UInt32
  clock : Clock

/-- What a command leaves behind. -/
structure Report where
  exitCode : Nat
  output : Text
  errors : Text
  files : Files

namespace Report

/-- The report of a command that ended well. -/
def success (files : Files) (output errors : Text) : Report :=
  ⟨0, output, errors, files⟩

/-- The report of a command that failed. -/
def failure (files : Files) (output errors message : Text) : Report :=
  ⟨1, output, errors ++ "error: ".toList ++ message ++ ['\n'], files⟩

end Report

namespace Command

/-- The text of a script, or why there is none. -/
def readScript (w : World) (script : Text) : Except Text Text :=
  (w.files.read script).mapError fun fault =>
    "reading script ".toList ++ script ++ ": ".toList ++ fault.message

/-- The configuration with the options put over it. -/
def withOptions (config : Config) (o : RunOptions) (entropy : UInt32) : Config where
  seed := if o.randomSeed then entropy else o.seed.getD config.seed
  untilLimit := o.untilLimit.getD config.untilLimit
  maxNesting := config.maxNesting
  saveDirectory := o.saveDirectory <|> config.saveDirectory

/-- The lines that a console has shown. -/
def shownText (c : Console) : Text :=
  c.shown.toList.flatMap (· ++ ['\n'])

/-- Runs a script. -/
def runReport (w : World) (script : Text) (o : RunOptions) : Report :=
  match readScript w script with
  | .error message => .failure w.files [] [] message
  | .ok source =>
    match Config.load w.files o.config w.usualConfig w.seedVariable with
    | .error fault => .failure w.files [] [] fault.message
    | .ok config =>
      let config := withOptions config o w.entropy
      let seedLine :=
        if o.randomSeed then "seed: ".toList ++ Text.ofNat config.seed.toNat ++ ['\n'] else []
      let console : Console := { saveDirectory := config.saveDirectoryOrHere, files := w.files }
      let (outcome, m) :=
        (Program.interpret source).run.run (.fresh config .standard w.clock console)
      match outcome with
      | .ok () => .success m.host.files (shownText m.host) seedLine
      | .error failure =>
        .failure m.host.files (shownText m.host) seedLine
          ("running ".toList ++ script ++ ": [".toList ++ failure.fault.code.text ++ "] ".toList
            ++ failure.message)

/-- Checks a script. -/
def checkReport (w : World) (script : Text) : Report :=
  match readScript w script with
  | .error message => .failure w.files [] [] message
  | .ok source =>
    match Program.check source with
    | .ok () => .success w.files (script ++ ": ok\n".toList) []
    | .error issue =>
      .failure w.files [] [] ("checking ".toList ++ script ++ ": ".toList ++ issue.message)

/-- The report of a command. -/
def report (w : World) : Command → Report
  | run script o => runReport w script o
  | check script => checkReport w script

end Command

end Grimoire
