import Grimoire.Essence
import Grimoire.Limits
import Grimoire.Number.Decimal

/-!
# Faults

Every way in which a script can fail, as data, with the wording in one place. A fault ends the run;
nothing is recovered. Each belongs to a kind, and the kinds fall into five codes. A `Failure` is a
fault together with the line at which it was met.
-/

namespace Grimoire

/-! ## Causes -/

/-- A value of the wrong kind. -/
inductive TypeFault where
  /-- A loop over something that is neither a string nor an array. -/
  | notIterable (loop : Text) (found : Essence)
  | expectedArray (user : Text) (found : Essence)
  | expectedTome (user : Text) (found : Essence)
  | expectedShape (user : Text) (found : Essence)
  | expectedDate (found : Essence)
  /-- Storing a container somewhere inside itself. -/
  | insideItself (user : Text) (container : Essence)
  /-- A name that has to hold an array and does not. -/
  | notAnArray (user : Text) (name : Text)
  | notSearchable (found : Essence)
  /-- A value without a JSON form. -/
  | notEncodable (found : Essence)
  deriving DecidableEq, Repr

/-- Text that cannot be read. -/
inductive ReadingFault where
  | tooManyParameters (found : Nat)
  | badParameter (name : Text)
  | invalidJson
  | patternMismatch (text : Text)
  | badNumber (digits : Text)
  | notARealDate (text : Text)
  | notARecognisedDate (text : Text)
  deriving DecidableEq, Repr

/-- A value outside the range an operation allows. -/
inductive RangeFault where
  | notAnInstant (seconds : Number)
  | instantOutOfRange (seconds : Number)
  | cannotShift (amount : Number)
  | leavesCalendar (amount : Number)
  | cannotSpan (first last step : Number)
  | spanTooLong (first last step : Number)
  | emptyArray (user : Text)
  | noOptions
  | flipProbability (p : Number)
  | bernoulliProbability (p : Number)
  | negativeWeight (weight : Number)
  | zeroWeights
  | weightCount (items weights : Nat)
  | emptyPool
  | chantTooLong (copies : Nat)
  | padTooWide (width : Nat)
  deriving DecidableEq, Repr

/-- A request that the host refused. -/
inductive HostFault where
  | io (problem : Text)
  | invalidFileName (name : Text)
  | notSupported (request : Text)
  deriving DecidableEq, Repr

/-- The cause of a failure. -/
inductive Fault where
  | unknownStatement (line : Text)
  | unknownModule (name : Text)
  | unknownFunction (library function : Text)
  /-- Rebinding or editing a sealed name. -/
  | sealedVariable (name : Text)
  /-- Sealing a name that is bound. -/
  | alreadyDefined (name : Text)
  | wrongType (fault : TypeFault)
  /-- A block without its `conclude`; `line` is the line of the opener. -/
  | unterminatedBlock (opener : Text) (line : Nat)
  | loopBoundExceeded (limit : Nat)
  | unreadable (fault : ReadingFault)
  | outOfRange (fault : RangeFault)
  | wrongArity (function expected : Text) (found : Nat)
  | nestingTooDeep (limit : Nat)
  | host (fault : HostFault)
  deriving DecidableEq, Repr

/-! ## Codes -/

/-- The five codes of faults. -/
inductive FaultCode where
  | language
  | modules
  | types
  | operations
  | aborts
  deriving DecidableEq, Repr

/-- The text of a code. -/
def FaultCode.text : FaultCode → Text
  | .language => "E001".toList
  | .modules => "E002".toList
  | .types => "E003".toList
  | .operations => "E004".toList
  | .aborts => "E005".toList

/-- The code of a fault. -/
def Fault.code : Fault → FaultCode
  | .unknownStatement _ | .unterminatedBlock .. | .unreadable _ => .language
  | .unknownModule _ | .unknownFunction .. => .modules
  | .wrongType _ => .types
  | .sealedVariable _ | .alreadyDefined _ | .outOfRange _ | .wrongArity .. => .operations
  | .loopBoundExceeded _ | .nestingTooDeep _ | .host _ => .aborts

/-! ## Wording -/

/-- The wording of a type fault. -/
def TypeFault.message : TypeFault → Text
  | notIterable loop found =>
    "'".toList ++ loop ++ "' iterates strings or arrays, got ".toList ++ found.name
  | expectedArray user found => user ++ " expects an array, got ".toList ++ found.name
  | expectedTome user found => user ++ " expects a tome, got ".toList ++ found.name
  | expectedShape user found => user ++ " needs a shape, got ".toList ++ found.name
  | expectedDate found => "expected a date, got ".toList ++ found.name
  | insideItself user container =>
    user ++ " would place ".toList ++ container.name ++ " inside itself".toList
  | notAnArray user name => user ++ ": '".toList ++ name ++ "' is not an array".toList
  | notSearchable found => "Seek searches strings or arrays, got ".toList ++ found.name
  | notEncodable found => "a ".toList ++ found.name ++ " cannot be encoded as JSON".toList

/-- The wording of a reading fault. -/
def ReadingFault.message : ReadingFault → Text
  | tooManyParameters found =>
    "a shape takes at most ".toList ++ Text.ofNat maxShapeParameters ++ " parameters, got ".toList
      ++ Text.ofNat found
  | badParameter name => "'".toList ++ name ++ "' is not a valid shape parameter".toList
  | invalidJson => "invalid JSON: not a document".toList
  | patternMismatch text => "'".toList ++ text ++ "' does not match the time pattern".toList
  | badNumber digits => "bad number '".toList ++ digits ++ "'".toList
  | notARealDate text => "'".toList ++ text ++ "' is not a real date".toList
  | notARecognisedDate text => "'".toList ++ text ++ "' is not a recognised date".toList

/-- The wording of a range fault. -/
def RangeFault.message : RangeFault → Text
  | notAnInstant seconds => seconds.inMessage ++ " is not a valid instant".toList
  | instantOutOfRange seconds => seconds.inMessage ++ " is out of range".toList
  | cannotShift amount => "cannot shift a date by ".toList ++ amount.inMessage
  | leavesCalendar amount =>
    "shifting by ".toList ++ amount.inMessage ++ " leaves the calendar".toList
  | cannotSpan first last step =>
    "cannot span ".toList ++ first.inMessage ++ " to ".toList ++ last.inMessage ++ " by ".toList
      ++ step.inMessage
  | spanTooLong first last step =>
    "span ".toList ++ first.inMessage ++ " to ".toList ++ last.inMessage ++ " by ".toList
      ++ step.inMessage ++ " exceeds ".toList ++ Text.ofNat maxSpanLength ++ " elements".toList
  | emptyArray user => user ++ " of an empty array".toList
  | noOptions => "Choose needs at least one option".toList
  | flipProbability p => "Flip probability must lie in [0, 1], got ".toList ++ p.inMessage
  | bernoulliProbability p => "bernoulli probability must lie in [0, 1], got ".toList ++ p.inMessage
  | negativeWeight weight => "weights must be non-negative, got ".toList ++ weight.inMessage
  | zeroWeights => "weights sum to zero".toList
  | weightCount items weights =>
    Text.ofNat items ++ " items but ".toList ++ Text.ofNat weights ++ " weights".toList
  | emptyPool => "choice from an empty pool".toList
  | chantTooLong copies =>
    "Chant of ".toList ++ Text.ofNat copies ++ " copies exceeds ".toList
      ++ Text.ofNat maxTextLength ++ " characters".toList
  | padTooWide width =>
    "pad width ".toList ++ Text.ofNat width ++ " exceeds ".toList ++ Text.ofNat maxTextLength
      ++ " characters".toList

/-- The wording of a host fault. -/
def HostFault.message : HostFault → Text
  | io problem => "I/O error: ".toList ++ problem
  | invalidFileName name => "invalid file name '".toList ++ name ++ "'".toList
  | notSupported request => "not supported: ".toList ++ request

/-- The wording of a fault. -/
def Fault.message : Fault → Text
  | unknownStatement line => "unknown statement: ".toList ++ line
  | unknownModule name => "unknown module '".toList ++ name ++ "'".toList
  | unknownFunction library function =>
    "unknown function '".toList ++ function ++ "' in module '".toList ++ library ++ "'".toList
  | sealedVariable name => "'".toList ++ name ++ "' is sealed and cannot be reassigned".toList
  | alreadyDefined name => "'".toList ++ name ++ "' already exists and cannot be sealed".toList
  | wrongType fault => "type error: ".toList ++ fault.message
  | unterminatedBlock opener line =>
    "'".toList ++ opener ++ "' block opened at line ".toList ++ Text.ofNat line
      ++ " has no matching 'conclude'".toList
  | loopBoundExceeded limit =>
    "until loop exceeded ".toList ++ Text.ofNat limit ++ " iterations".toList
  | unreadable fault => "parse error: ".toList ++ fault.message
  | outOfRange fault => "range error: ".toList ++ fault.message
  | wrongArity function expected found =>
    function ++ " expects ".toList ++ expected ++ ", got ".toList ++ Text.ofNat found
  | nestingTooDeep limit =>
    "blocks nested deeper than ".toList ++ Text.ofNat limit ++ " levels".toList
  | host fault => "host error: ".toList ++ fault.message

/-! ## Located failures -/

/-- A line of a source: its number, counted from one, and its trimmed text. -/
structure Place where
  line : Nat
  text : Text
  deriving DecidableEq, Repr

/-- A fault and, if it is known, the line at which it was met. -/
structure Failure where
  fault : Fault
  place : Option Place := none
  deriving DecidableEq, Repr

namespace Failure

/-- Locates a failure. A failure is located once, and an unknown statement, which carries its own
text, never. -/
def locate (place : Place) (f : Failure) : Failure :=
  match f.place, f.fault with
  | some _, _ => f
  | none, .unknownStatement _ => f
  | none, _ => { f with place := some place }

theorem fault_locate (place : Place) (f : Failure) : (f.locate place).fault = f.fault := by
  unfold locate
  split <;> rfl

/-- The wording of a located failure around the wording of its fault. -/
def around (f : Failure) (message : Text) : Text :=
  match f.place with
  | none => message
  | some place =>
    "line ".toList ++ Text.ofNat place.line ++ ": ".toList ++ message ++ " (in `".toList
      ++ place.text ++ "`)".toList

/-- The wording of a failure. -/
def message (f : Failure) : Text :=
  f.around f.fault.message

end Failure

end Grimoire
