import Grimoire.Computation.Arrays
import Grimoire.Computation.Basic
import Grimoire.Computation.Numbers
import Grimoire.Computation.Texts
import Grimoire.Computation.Tomes

/-!
# The values of computations

What each computation works out from its operands. Nothing but the resources changes on the way:
a computation reads the scope and the store, adds cells and draws from the random stream.
-/

namespace Grimoire

namespace Computation

/-- The name of the kind of a value. -/
def essence (g : Groups) : Eval Value := do
  return .string (← g.value 1).essence.name

/-- Whether a value is absent or has nothing in it. -/
def emptiness (g : Groups) : Eval Value := do
  let v ← g.value 1
  return .boolean ((← Work.store).isVoid v)

/-- The result of a library function. -/
def invoked (g : Groups) : Eval Value := do
  Eval.callLibrary (g.text 1) (g.text 2) (← Eval.values (g.text 3))

/-- The value that a computation works out from its operands. -/
def value : Computation → Groups → Eval Value
  | assign, g => g.value 2
  | invokeInto, g => invoked g
  | transmute, g => replaced g
  | shear, g => onText Text.trim g
  | shearLeft, g => onText Text.trimStart g
  | shearRight, g => onText Text.trimEnd g
  | ascend, g => onText Text.uppercase g
  | descend, g => onText Text.lowercase g
  | crownTitle, g => onText Text.titleCase g
  | beginsInto, g => literalTest Text.startsWith g
  | endsInto, g => literalTest Text.endsWith g
  | chant, g => chanted g
  | carve, g => carved g
  | countOf, g => counted g
  | fractureLines, g => linesOf g
  | bindLines, g => joinedLines g
  | weave, g => woven g
  | containsInto, g => containment g
  | padLeft, g => padded .left g
  | padRight, g => padded .right g
  | padCenter, g => padded .center g
  | drawFrom, g => drawn g
  | fuse, g => fused g
  | unfold, g => onItems "Unfold" Collection.flattenOnce g
  | bundle, g => bundled g
  | span, g => spanned g
  | sum, g => summed g
  | average, g => averaged g
  | min, g => extremeOf false "Min" g
  | max, g => extremeOf true "Max" g
  | unique, g => onItems "Unique" Collection.dedupe g
  | seek, g => sought g
  | takeFirst, g => taken "TakeFirst" List.take g
  | takeLast, g => taken "TakeLast" (fun count items => items.drop (items.length - count)) g
  | holdsKeyInto, g => keyHeld g
  | glyphs, g => keysOf g
  | essences, g => valuesOf g
  | pairs, g => pairsOf g
  | mirror, g => mirrored g
  | pickKeys, g => picked g
  | omitKeys, g => omitted g
  | tally, g => tallied g
  | morph, g => morphed g
  | sift, g => sifted g
  | distill, g => distilled g
  | remainder, g => onNumbers Number.remainder g
  | raise, g => onNumbers Number.power g
  | clamp, g => clamped g
  | round, g => onNumber Number.roundHalfUp g
  | floor, g => onNumber Number.floor g
  | ceil, g => onNumber Number.ceil g
  | abs, g => onNumber Number.abs g
  | mapRange, g => remapped g
  | drawFloat, g => floatDrawn g
  | nowUtc, _ => now
  | decodeTime, g => timeDecoded g
  | dawnOf, g => onDate Timestamp.startOfDay g
  | duskOf, g => onDate Timestamp.endOfDay g
  | gapDays, g => onDates Timestamp.diffDays g
  | gapSeconds, g => onDates Timestamp.diffSeconds g
  | format, g => formatted g
  | encodeJson, g => encoded g
  | decodeJson, g => decoded g
  | essenceOf, g => essence g
  | isVoid, g => emptiness g
  | choose, g => chosen g
  | flip, g => flipped g
  | weightedDraw, g => weighed g

end Computation

end Grimoire
