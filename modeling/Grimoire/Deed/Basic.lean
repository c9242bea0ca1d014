import Grimoire.Pattern

/-!
# Deeds

A deed is a statement that does more than bind a computed value: it seals names, edits containers
in place, summons libraries or asks something of the host. This module lists the deeds with their
names and the phrases that express them.
-/

namespace Grimoire

/-- The statements that act on more than one name. -/
inductive Deed where
  | setPath
  | sealName
  | reveal
  | summon
  /-- Shuffles an array in place. -/
  | stir
  | bindFront
  | pluckFirst
  /-- Puts one value in every place of an array. -/
  | flood
  | sort
  | reverse
  | pluckKey
  /-- Renames a key of a tome. -/
  | rebrand
  /-- Copies the entries of one tome into another. -/
  | meld
  /-- Saves a text. -/
  | scribe
  /-- Puts a text on the clipboard. -/
  | imprint
  deriving DecidableEq, Repr

namespace Deed

/-- The name of a deed in the catalogue. -/
def name : Deed → Text
  | setPath => "SetPath".toList
  | sealName => "Seal".toList
  | reveal => "Reveal".toList
  | summon => "Summon".toList
  | stir => "Stir".toList
  | bindFront => "BindFront".toList
  | pluckFirst => "PluckFirst".toList
  | flood => "Flood".toList
  | sort => "Sort".toList
  | reverse => "Reverse".toList
  | pluckKey => "PluckKey".toList
  | rebrand => "Rebrand".toList
  | meld => "Meld".toList
  | scribe => "Scribe".toList
  | imprint => "Imprint".toList

/-- The phrase of a deed. The slots are numbered in the order of the operands. -/
def pattern : Deed → Pattern
  | setPath => .spaced [.keyword "Set", .path 1, .keyword "to", .shortLines 2]
  | sealName => .spaced [.keyword "Seal", .name 1, .keyword "is", .shortLines 2]
  | reveal => .all [.keyword "Reveal:", .space, .shortLines 1]
  | summon =>
    .all [.keyword "Summon", .gap, .quoted 1 1,
      .optional (.all [.gap, .keyword "as", .gap, .name 2])]
  | stir => .spaced [.keyword "Stir", .long 1]
  | bindFront => .spaced [.keyword "BindFront", .long 1, .keyword "to", .name 2]
  | pluckFirst =>
    .spaced [.keyword "PluckFirst", .keyword "from", .name 1, .keyword "into", .name 2]
  | flood => .spaced [.keyword "Flood", .name 1, .keyword "with", .long 2]
  | sort =>
    .all [.keyword "Sort", .gap, .short 1,
      .optional (.andThen .gap
        (.capture 2 (.orElse (.keyword "ascending") (.keyword "descending"))))]
  | reverse => .spaced [.keyword "Reverse", .long 1]
  | pluckKey => .spaced [.keyword "Pluck", .keyword "key", .long 1, .keyword "from", .long 2]
  | rebrand =>
    .spaced [.keyword "Rebrand", .keyword "key", .long 1, .keyword "as", .long 2, .keyword "in",
      .long 3]
  | meld => .spaced [.keyword "Meld", .long 1, .keyword "into", .long 2]
  | scribe => .spaced [.keyword "Scribe", .long 1, .keyword "as", .quoted 2 1]
  | imprint => .spaced [.keyword "Imprint", .long 1, .keyword "to", .keyword "clipboard"]

end Deed

end Grimoire
