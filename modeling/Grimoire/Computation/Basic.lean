import Grimoire.Pattern

/-!
# Computations

A computation is a statement that works out one value and binds it to a name. This module lists the
computations with their names and the phrases that express them.
-/

namespace Grimoire

/-- The statements that bind a value they work out. -/
inductive Computation where
  /-- The value of an expression. -/
  | assign
  /-- The result of a library function. -/
  | invokeInto
  /-- A text with one part put for another. -/
  | transmute
  | shear
  | shearLeft
  | shearRight
  | ascend
  | descend
  | crownTitle
  | beginsInto
  | endsInto
  /-- A text repeated. -/
  | chant
  /-- A part of a text. -/
  | carve
  | countOf
  | fractureLines
  | bindLines
  /-- Texts joined. -/
  | weave
  | containsInto
  | padLeft
  | padRight
  | padCenter
  /-- Elements drawn without replacement. -/
  | drawFrom
  /-- Two arrays joined. -/
  | fuse
  | unfold
  | bundle
  | span
  | sum
  | average
  | min
  | max
  | unique
  | seek
  | takeFirst
  | takeLast
  | holdsKeyInto
  /-- The keys of a tome. -/
  | glyphs
  /-- The values of a tome. -/
  | essences
  | pairs
  | mirror
  | pickKeys
  | omitKeys
  | tally
  /-- A shape applied to every element. -/
  | morph
  /-- The elements that a shape accepts. -/
  | sift
  /-- A fold with a shape. -/
  | distill
  | remainder
  | raise
  | clamp
  | round
  | floor
  | ceil
  | abs
  | mapRange
  | drawFloat
  | nowUtc
  | decodeTime
  | dawnOf
  | duskOf
  | gapDays
  | gapSeconds
  | format
  | encodeJson
  | decodeJson
  | essenceOf
  | isVoid
  | choose
  | flip
  | weightedDraw
  deriving DecidableEq, Repr

namespace Computation

/-- The name of a computation in the catalogue. -/
def name : Computation → Text
  | assign => "Assign".toList
  | invokeInto => "InvokeInto".toList
  | transmute => "Transmute".toList
  | shear => "Shear".toList
  | shearLeft => "ShearLeft".toList
  | shearRight => "ShearRight".toList
  | ascend => "Ascend".toList
  | descend => "Descend".toList
  | crownTitle => "CrownTitle".toList
  | beginsInto => "BeginsInto".toList
  | endsInto => "EndsInto".toList
  | chant => "Chant".toList
  | carve => "Carve".toList
  | countOf => "CountOf".toList
  | fractureLines => "FractureLines".toList
  | bindLines => "BindLines".toList
  | weave => "Weave".toList
  | containsInto => "ContainsInto".toList
  | padLeft => "PadLeft".toList
  | padRight => "PadRight".toList
  | padCenter => "PadCenter".toList
  | drawFrom => "DrawFrom".toList
  | fuse => "Fuse".toList
  | unfold => "Unfold".toList
  | bundle => "Bundle".toList
  | span => "Span".toList
  | sum => "Sum".toList
  | average => "Average".toList
  | min => "Min".toList
  | max => "Max".toList
  | unique => "Unique".toList
  | seek => "Seek".toList
  | takeFirst => "TakeFirst".toList
  | takeLast => "TakeLast".toList
  | holdsKeyInto => "HoldsKeyInto".toList
  | glyphs => "Glyphs".toList
  | essences => "Essences".toList
  | pairs => "Pairs".toList
  | mirror => "Mirror".toList
  | pickKeys => "PickKeys".toList
  | omitKeys => "OmitKeys".toList
  | tally => "Tally".toList
  | morph => "Morph".toList
  | sift => "Sift".toList
  | distill => "Distill".toList
  | remainder => "Remainder".toList
  | raise => "Raise".toList
  | clamp => "Clamp".toList
  | round => "Round".toList
  | floor => "Floor".toList
  | ceil => "Ceil".toList
  | abs => "Abs".toList
  | mapRange => "MapRange".toList
  | drawFloat => "DrawFloat".toList
  | nowUtc => "NowUTC".toList
  | decodeTime => "DecodeTime".toList
  | dawnOf => "DawnOf".toList
  | duskOf => "DuskOf".toList
  | gapDays => "GapDays".toList
  | gapSeconds => "GapSeconds".toList
  | format => "Format".toList
  | encodeJson => "EncodeJson".toList
  | decodeJson => "DecodeJson".toList
  | essenceOf => "EssenceOf".toList
  | isVoid => "IsVoid".toList
  | choose => "Choose".toList
  | flip => "Flip".toList
  | weightedDraw => "WeightedDraw".toList

/-! ## Phrases -/

/-- A verb, an operand and a name for the result. -/
def unary (verb : String) : Pattern :=
  .spaced [.keyword verb, .long 1, .keyword "into", .name 2]

/-- A verb, two operands with a word between them and a name for the result. -/
def binary (verb link : String) : Pattern :=
  .spaced [.keyword verb, .long 1, .keyword link, .long 2, .keyword "into", .name 3]

/-- A word and an operand that may be left out. -/
def option (link : String) (operand : Pattern) : Pattern :=
  .optional (.all [.gap, .keyword link, .gap, operand])

/-- The phrase of padding. -/
def padding (verb : String) : Pattern :=
  .all [.spaced [.keyword verb, .long 1, .keyword "to", .short 2], option "with" (.short 3), .gap,
    .keyword "into", .gap, .name 4]

/-- Two operands with two points between them. -/
def interval (first second : Nat) : Pattern :=
  .all [.short first, .keyword "..", .short second]

/-- The phrase of a computation. The slots are numbered in the order of the operands. -/
def pattern : Computation → Pattern
  | assign => .spaced [.name 1, .keyword "is", .shortLines 2]
  | invokeInto =>
    .all [.keyword "invoke", .gap, .name 1, .keyword ".", .name 2, option "with" (.shortLines 3),
      .gap, .keyword "into", .gap, .name 4]
  | transmute =>
    .spaced [.keyword "Transmute", .long 1, .keyword "within", .long 2, .keyword "to", .long 3,
      .keyword "into", .name 4]
  | shear => unary "Shear"
  | shearLeft => unary "ShearLeft"
  | shearRight => unary "ShearRight"
  | ascend => unary "Ascend"
  | descend => unary "Descend"
  | crownTitle => unary "CrownTitle"
  | beginsInto =>
    .spaced [.keyword "Begins", .long 1, .keyword "with", .quoted 2 0, .keyword "into", .name 3]
  | endsInto =>
    .spaced [.keyword "Ends", .long 1, .keyword "with", .quoted 2 0, .keyword "into", .name 3]
  | chant => binary "Chant" "times"
  | carve =>
    .spaced [.keyword "Carve", .long 1, .keyword "from", .long 2, .keyword "for", .long 3,
      .keyword "into", .name 4]
  | countOf => binary "CountOf" "in"
  | fractureLines => unary "FractureLines"
  | bindLines => unary "BindLines"
  | weave => binary "Weave" "with"
  | containsInto => binary "Contains" "in"
  | padLeft => padding "PadLeft"
  | padRight => padding "PadRight"
  | padCenter => padding "PadCenter"
  | drawFrom => binary "DrawFrom" "count"
  | fuse => binary "Fuse" "and"
  | unfold =>
    .spaced [.keyword "Unfold", .long 1, .keyword "one", .keyword "level", .keyword "into",
      .name 2]
  | bundle => binary "Bundle" "by"
  | span =>
    .all [.spaced [.keyword "Span", .short 1, .keyword "to", .short 2], option "by" (.short 3),
      .gap, .keyword "into", .gap, .name 4]
  | sum => unary "Sum"
  | average => unary "Average"
  | min => unary "Min"
  | max => unary "Max"
  | unique => unary "Unique"
  | seek => binary "Seek" "in"
  | takeFirst =>
    .spaced [.keyword "TakeFirst", .short 1, .keyword "from", .long 2, .keyword "into", .name 3]
  | takeLast =>
    .spaced [.keyword "TakeLast", .short 1, .keyword "from", .long 2, .keyword "into", .name 3]
  | holdsKeyInto =>
    .spaced [.keyword "Holds", .keyword "key", .long 1, .keyword "in", .long 2, .keyword "into",
      .name 3]
  | glyphs => unary "Glyphs"
  | essences => unary "Essences"
  | pairs => unary "Pairs"
  | mirror => unary "Mirror"
  | pickKeys =>
    .spaced [.keyword "Pick", .keyword "keys", .long 1, .keyword "from", .long 2, .keyword "into",
      .name 3]
  | omitKeys =>
    .spaced [.keyword "Omit", .keyword "keys", .long 1, .keyword "from", .long 2, .keyword "into",
      .name 3]
  | tally => unary "Tally"
  | morph =>
    .spaced [.keyword "Morph", .short 1, .keyword "with", .long 2, .keyword "into", .name 3]
  | sift =>
    .spaced [.keyword "Sift", .short 1, .keyword "with", .long 2, .keyword "into", .name 3]
  | distill =>
    .spaced [.keyword "Distill", .short 1, .keyword "with", .long 2, .keyword "from", .long 3,
      .keyword "into", .name 4]
  | remainder => binary "Remainder" "by"
  | raise => binary "Raise" "by"
  | clamp =>
    .spaced [.keyword "Clamp", .long 1, .keyword "between", .long 2, .keyword "and", .long 3,
      .keyword "into", .name 4]
  | round => unary "Round"
  | floor => unary "Floor"
  | ceil => unary "Ceil"
  | abs => unary "Abs"
  | mapRange =>
    .spaced [.keyword "MapRange", .long 1, .keyword "from", interval 2 3, .keyword "to",
      interval 4 5, .keyword "into", .name 6]
  | drawFloat =>
    .spaced [.keyword "Draw", .keyword "float", .keyword "between", .long 1, .keyword "and",
      .long 2, .keyword "into", .name 3]
  | nowUtc => .spaced [.keyword "NowUTC", .keyword "into", .name 1]
  | decodeTime =>
    .spaced [.keyword "DecodeTime", .quoted 1 1, .keyword "as", .quoted 2 1, .keyword "into",
      .name 3]
  | dawnOf => unary "DawnOf"
  | duskOf => unary "DuskOf"
  | gapDays =>
    .spaced [.keyword "GapDays", .keyword "between", .long 1, .keyword "and", .long 2,
      .keyword "into", .name 3]
  | gapSeconds =>
    .spaced [.keyword "GapSeconds", .keyword "between", .long 1, .keyword "and", .long 2,
      .keyword "into", .name 3]
  | format =>
    .spaced [.keyword "Format", .long 1, .keyword "as", .quoted 2 1, .keyword "into", .name 3]
  | encodeJson =>
    .spaced [.keyword "Encode", .keyword "JSON", .long 1, .keyword "into", .name 2]
  | decodeJson =>
    .spaced [.keyword "Decode", .keyword "JSON", .long 1, .keyword "into", .name 2]
  | essenceOf => unary "EssenceOf"
  | isVoid => unary "IsVoid"
  | choose => unary "Choose"
  | flip =>
    .spaced [.keyword "Flip", .keyword "with", .keyword "p", .long 1, .keyword "into", .name 2]
  | weightedDraw =>
    .spaced [.keyword "WeightedDraw", .keyword "from", .long 1, .keyword "weights", .long 2,
      .keyword "into", .name 3]

/-- The slot of the name that the result is bound to. -/
def target : Computation → Nat
  | assign | nowUtc => 1
  | shear | shearLeft | shearRight | ascend | descend | crownTitle | fractureLines | bindLines
  | unfold | sum | average | min | max | unique | glyphs | essences | pairs | mirror | tally
  | round | floor | ceil | abs | dawnOf | duskOf | encodeJson | decodeJson | essenceOf | isVoid
  | choose | flip => 2
  | beginsInto | endsInto | chant | countOf | weave | containsInto | drawFrom | fuse | bundle
  | seek | takeFirst | takeLast | holdsKeyInto | pickKeys | omitKeys | morph | sift | remainder
  | raise | drawFloat | decodeTime | gapDays | gapSeconds | format | weightedDraw => 3
  | invokeInto | transmute | carve | padLeft | padRight | padCenter | span | distill | clamp => 4
  | mapRange => 6

end Computation

end Grimoire
