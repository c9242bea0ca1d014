import Grimoire.Pattern

/-!
# Constructs

The openers that run: two conditionals and three loops.
-/

namespace Grimoire

/-- An opener that runs. -/
inductive Construct where
  | when (condition : Text)
  | ward (condition : Text)
  | repeatEach (name container : Text)
  | stride (index name container : Text)
  | until (condition : Text)
  deriving DecidableEq, Repr

namespace Construct

/-- Text on one line, perhaps none, as little as the rest allows. -/
def condition (slot : Nat) : Pattern :=
  .capture slot (.run (.except '\n') 0 .shortest)

/-- A colon at the end of a line. -/
def colon : Pattern :=
  .all [.space, .keyword ":", .space]

/-- A loop over the elements of a container. -/
def repeatEachPattern : Pattern :=
  .andThen
    (.spaced [.keyword "repeat", .keyword "each", .name 1,
      .orElse (.keyword "in") (.keyword "among"), .short 2])
    colon

/-- A loop over the elements of a container and their places. -/
def stridePattern : Pattern :=
  .all [.keyword "stride", .gap, .name 1, .space, .keyword ",", .space,
    .spaced [.name 2, .keyword "over", .short 3], colon]

/-- A conditional that needs a colon. -/
def wardPattern : Pattern :=
  .all [.orElse (.keyword "ward") (.keyword "guard"), .gap, condition 1, colon]

/-- A loop until a condition holds. -/
def untilPattern : Pattern :=
  .all [.keyword "until", .gap, condition 1, colon]

/-- A conditional that may go without a colon. -/
def whenPattern : Pattern :=
  .all [.keyword "when", .gap, condition 1, .space, .optional (.keyword ":"), .space]

/-- The construct of a line; the first pattern that takes it decides. -/
def ofLine? (line : Text) : Option Construct :=
  let line := line.trim
  let read (p : Pattern) (make : Groups → Construct) := (p.match? line).map make
  (read repeatEachPattern fun g => repeatEach (g.text 1) (g.text 2)) <|>
    (read stridePattern fun g => stride (g.text 1) (g.text 2) (g.text 3)) <|>
    (read wardPattern fun g => ward (g.text 1)) <|>
    (read untilPattern fun g => .until (g.text 1)) <|>
    (read whenPattern fun g => .when (g.text 1))

/-- Whether the construct takes an `otherwise:` part. -/
def isConditional : Construct → Bool
  | when _ | ward _ => true
  | _ => false

end Construct

end Grimoire
