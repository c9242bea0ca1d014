import Grimoire.Computation
import Grimoire.Deed

/-!
# Statements

A statement is a computation or a deed, ended by `ok` or `okay`, either with a question mark or
without one. The catalogue is ordered: the first form whose phrase takes a line is the form of the
line, so the order decides between forms whose phrases overlap.
-/

namespace Grimoire

/-- A form of statement. -/
inductive Form where
  | computation (c : Computation)
  | deed (d : Deed)
  deriving DecidableEq, Repr

namespace Form

/-- The forms in the order in which they are tried. -/
def catalogue : List Form :=
  [computation .assign, deed .setPath, deed .sealName, deed .reveal, deed .summon,
    computation .invokeInto, computation .transmute, computation .shear, computation .shearLeft,
    computation .shearRight, computation .ascend, computation .descend, computation .crownTitle,
    computation .beginsInto, computation .endsInto, computation .chant, computation .carve,
    computation .countOf, computation .fractureLines, computation .bindLines, computation .weave,
    computation .containsInto, computation .padLeft, computation .padRight,
    computation .padCenter, deed .stir, computation .drawFrom, deed .bindFront, deed .pluckFirst,
    computation .fuse, computation .unfold, computation .bundle, computation .span,
    computation .sum, computation .average, computation .min, computation .max, deed .flood,
    deed .sort, deed .reverse, computation .unique, computation .seek, computation .takeFirst,
    computation .takeLast, computation .holdsKeyInto, computation .glyphs, computation .essences,
    computation .pairs, deed .pluckKey, deed .rebrand, deed .meld, computation .mirror,
    computation .pickKeys, computation .omitKeys, computation .tally, computation .morph,
    computation .sift, computation .distill, computation .remainder, computation .raise,
    computation .clamp, computation .round, computation .floor, computation .ceil,
    computation .abs, computation .mapRange, computation .drawFloat, computation .nowUtc,
    computation .decodeTime, computation .dawnOf, computation .duskOf, computation .gapDays,
    computation .gapSeconds, computation .format, computation .encodeJson,
    computation .decodeJson, computation .essenceOf, computation .isVoid, deed .scribe,
    deed .imprint, computation .choose, computation .flip, computation .weightedDraw]

theorem mem_catalogue (form : Form) : form ∈ catalogue := by
  rcases form with c | d
  · cases c <;> decide
  · cases d <;> decide

/-- The name of a form. -/
def name : Form → Text
  | computation c => c.name
  | deed d => d.name

/-! ## Lines -/

/-- The word that ends a statement. -/
def ending : Pattern :=
  .orElse (.andThen (.keyword "ok") (.optional (.keyword "?")))
    (.andThen (.keyword "okay") (.optional (.keyword "?")))

/-- The pattern of the lines of a form: its phrase and an ending. `Reveal` alone may go without
one. -/
def pattern : Form → Pattern
  | computation c => .all [c.pattern, .space, ending]
  | deed .reveal => .all [Deed.pattern .reveal, .space, .optional ending]
  | deed d => .all [d.pattern, .space, ending]

/-- The form of a line, with its operands. -/
def find? (line : Text) : Option (Form × Groups) :=
  catalogue.findSome? fun form => (form.pattern.match? line.trim).map (form, ·)

/-- The form of a line. -/
def classify (line : Text) : Option Form :=
  (find? line).map Prod.fst

/-! ## Effects -/

/-- The effects of a statement. A computation only binds its value to the name it gives. -/
def effects : Form → Groups → Eval (List Effect)
  | computation c, g => do return [.bind (g.text c.target) (← c.value g)]
  | deed d, g => d.effects g

end Form

namespace Text

/-- Whether a line has nothing to run: it is blank or a comment. -/
def isIdle (line : Text) : Bool :=
  line.trim.isEmpty || startsWith "//".toList line.trim

end Text

end Grimoire
