import Grimoire.Proofs.Strands
import Grimoire.Proofs.Words
import Grimoire.Statement

/-!
# Sentences

The grammar of statements, form by form. A sentence is a list of symbols, which are written with
blanks between them; an ending follows. Keywords may be written in any letter case. A form whose
phrase has a clause that may be left out has two sentences. The strands of the phrase of a form are
its sentences, so a phrase takes a text exactly if the text is a sentence of the form with some
operands in the slots.
-/

namespace Grimoire

/-- A symbol of a sentence. -/
inductive Symbol where
  | keyword (letters : String)
  /-- One of two keywords, which the slot keeps. -/
  | choice (slot : Nat) (first second : String)
  /-- Any text. -/
  | text (slot : Nat)
  | name (slot : Nat)
  | path (slot : Nat)
  /-- A text between double quotes, which the slot leaves out. -/
  | literal (slot least : Nat)
  /-- A name in a library, with a point between the two. -/
  | member (library function : Nat)
  /-- Two texts with two points between them. -/
  | interval (first second : Nat)
  deriving DecidableEq, Repr

namespace Symbol

/-- The slots that a symbol fills. -/
def slots : Symbol → List Nat
  | keyword _ => []
  | choice slot _ _ | text slot | name slot | path slot | literal slot _ => [slot]
  | member first second | interval first second => [first, second]

/-- The words that a symbol can be, if it is a keyword. -/
def keys : Symbol → List Text
  | keyword letters => [letters.toList.map foldCase]
  | choice _ first second => [first.toList.map foldCase, second.toList.map foldCase]
  | _ => []

/-- Whether it can be seen in a text where the symbol ends. -/
def closed : Symbol → Bool
  | text _ | interval _ _ => false
  | _ => true

/-- The patterns of a symbol, without preferences. -/
def pieces : Symbol → List Pattern
  | keyword letters => [.keyword letters]
  | choice slot first second => [.capture slot (.orElse (.keyword first) (.keyword second))]
  | text slot => [.capture slot (.run .any 1 .longest)]
  | name slot => [.name slot]
  | path slot => [.path slot]
  | literal slot least =>
    [.keyword "\"", .capture slot (.run (.except '"') least .longest), .keyword "\""]
  | member first second => [.name first, .keyword ".", .name second]
  | interval first second =>
    [.capture first (.run .any 1 .longest), .keyword "..", .capture second (.run .any 1 .longest)]

/-- How a symbol is written with given operands. -/
def Writes (operands : Nat → Text) : Symbol → Text → Prop
  | keyword letters, s => s.map foldCase = letters.toList.map foldCase
  | choice slot _ _, s | text slot, s | name slot, s | path slot, s => s = operands slot
  | literal slot _, s => s = '"' :: (operands slot ++ ['"'])
  | member first second, s => s = operands first ++ '.' :: operands second
  | interval first second, s => s = operands first ++ '.' :: '.' :: operands second

instance (operands : Nat → Text) :
    ∀ (symbol : Symbol) (s : Text), Decidable (symbol.Writes operands s)
  | keyword letters, s => inferInstanceAs (Decidable (s.map foldCase = letters.toList.map foldCase))
  | choice slot _ _, s | text slot, s | name slot, s | path slot, s =>
    inferInstanceAs (Decidable (s = operands slot))
  | literal slot _, s => inferInstanceAs (Decidable (s = '"' :: (operands slot ++ ['"'])))
  | member first second, s =>
    inferInstanceAs (Decidable (s = operands first ++ '.' :: operands second))
  | interval first second, s =>
    inferInstanceAs (Decidable (s = operands first ++ '.' :: '.' :: operands second))

/-- What the patterns of a symbol want of the operands. -/
def Fits (operands : Nat → Text) : Symbol → Prop
  | keyword _ => True
  | choice slot first second => (operands slot).map foldCase ∈
      [first.toList.map foldCase, second.toList.map foldCase]
  | text slot => operands slot ≠ []
  | name slot => operands slot ≠ [] ∧ ∀ c ∈ operands slot, isWord c = true
  | path slot => Pattern.Takes
      (.andThen .identifier (.many (.andThen (.keyword ".") .identifier))) (operands slot) []
  | literal slot least => least ≤ (operands slot).length ∧ '"' ∉ operands slot
  | member first second => (operands first ≠ [] ∧ ∀ c ∈ operands first, isWord c = true) ∧
      (operands second ≠ [] ∧ ∀ c ∈ operands second, isWord c = true)
  | interval first second => operands first ≠ [] ∧ operands second ≠ []

end Symbol

/-! ## Sentences and their strands -/

/-- A sentence without its ending. -/
abbrev Sentence := List Symbol

namespace Sentence

/-- The slots that a sentence fills. -/
def slots (symbols : Sentence) : List Nat :=
  symbols.flatMap Symbol.slots

/-- The keywords of a sentence. -/
def keys (symbols : Sentence) : List Text :=
  symbols.flatMap Symbol.keys

/-- How a sentence is written with given operands: symbol after symbol, with blanks between them. -/
def Writes (operands : Nat → Text) : Sentence → Text → Prop
  | [], s => s = []
  | [symbol], s => symbol.Writes operands s
  | symbol :: next :: rest, s => ∃ w g t, s = w ++ (g ++ t) ∧ symbol.Writes operands w ∧
      (g ≠ [] ∧ Text.Blank g) ∧ Writes operands (next :: rest) t

/-- The patterns of a sentence, one after the other. -/
def strand : Sentence → List Pattern
  | [] => []
  | [symbol] => symbol.pieces
  | symbol :: next :: rest => symbol.pieces ++ Pattern.gap :: strand (next :: rest)

end Sentence

/-! ## The sentences of the language -/

/-- The sentences with a clause in the middle that may be left out. -/
def withClause (front clause back : Sentence) : List Sentence :=
  [front ++ (clause ++ back), front ++ back]

namespace Computation

/-- A verb, an operand and a name for the result. -/
def unarySentence (verb : String) : List Sentence :=
  [[.keyword verb, .text 1, .keyword "into", .name 2]]

/-- A verb, two operands with a word between them and a name for the result. -/
def binarySentence (verb link : String) : List Sentence :=
  [[.keyword verb, .text 1, .keyword link, .text 2, .keyword "into", .name 3]]

/-- A verb, two operands, a third one that may be left out and a name for the result. -/
def clauseSentences (verb link : String) : List Sentence :=
  withClause [.keyword verb, .text 1, .keyword "to", .text 2] [.keyword link, .text 3]
    [.keyword "into", .name 4]

/-- The sentences of a computation. -/
def sentences : Computation → List Sentence
  | assign => [[.name 1, .keyword "is", .text 2]]
  | invokeInto =>
    withClause [.keyword "invoke", .member 1 2] [.keyword "with", .text 3]
      [.keyword "into", .name 4]
  | transmute => [[.keyword "Transmute", .text 1, .keyword "within", .text 2, .keyword "to",
      .text 3, .keyword "into", .name 4]]
  | shear => unarySentence "Shear"
  | shearLeft => unarySentence "ShearLeft"
  | shearRight => unarySentence "ShearRight"
  | ascend => unarySentence "Ascend"
  | descend => unarySentence "Descend"
  | crownTitle => unarySentence "CrownTitle"
  | beginsInto =>
    [[.keyword "Begins", .text 1, .keyword "with", .literal 2 0, .keyword "into", .name 3]]
  | endsInto =>
    [[.keyword "Ends", .text 1, .keyword "with", .literal 2 0, .keyword "into", .name 3]]
  | chant => binarySentence "Chant" "times"
  | carve => [[.keyword "Carve", .text 1, .keyword "from", .text 2, .keyword "for", .text 3,
      .keyword "into", .name 4]]
  | countOf => binarySentence "CountOf" "in"
  | fractureLines => unarySentence "FractureLines"
  | bindLines => unarySentence "BindLines"
  | weave => binarySentence "Weave" "with"
  | containsInto => binarySentence "Contains" "in"
  | padLeft => clauseSentences "PadLeft" "with"
  | padRight => clauseSentences "PadRight" "with"
  | padCenter => clauseSentences "PadCenter" "with"
  | drawFrom => binarySentence "DrawFrom" "count"
  | fuse => binarySentence "Fuse" "and"
  | unfold =>
    [[.keyword "Unfold", .text 1, .keyword "one", .keyword "level", .keyword "into", .name 2]]
  | bundle => binarySentence "Bundle" "by"
  | span => clauseSentences "Span" "by"
  | sum => unarySentence "Sum"
  | average => unarySentence "Average"
  | min => unarySentence "Min"
  | max => unarySentence "Max"
  | unique => unarySentence "Unique"
  | seek => binarySentence "Seek" "in"
  | takeFirst => binarySentence "TakeFirst" "from"
  | takeLast => binarySentence "TakeLast" "from"
  | holdsKeyInto => [[.keyword "Holds", .keyword "key", .text 1, .keyword "in", .text 2,
      .keyword "into", .name 3]]
  | glyphs => unarySentence "Glyphs"
  | essences => unarySentence "Essences"
  | pairs => unarySentence "Pairs"
  | mirror => unarySentence "Mirror"
  | pickKeys => [[.keyword "Pick", .keyword "keys", .text 1, .keyword "from", .text 2,
      .keyword "into", .name 3]]
  | omitKeys => [[.keyword "Omit", .keyword "keys", .text 1, .keyword "from", .text 2,
      .keyword "into", .name 3]]
  | tally => unarySentence "Tally"
  | morph => binarySentence "Morph" "with"
  | sift => binarySentence "Sift" "with"
  | distill => [[.keyword "Distill", .text 1, .keyword "with", .text 2, .keyword "from", .text 3,
      .keyword "into", .name 4]]
  | remainder => binarySentence "Remainder" "by"
  | raise => binarySentence "Raise" "by"
  | clamp => [[.keyword "Clamp", .text 1, .keyword "between", .text 2, .keyword "and", .text 3,
      .keyword "into", .name 4]]
  | round => unarySentence "Round"
  | floor => unarySentence "Floor"
  | ceil => unarySentence "Ceil"
  | abs => unarySentence "Abs"
  | mapRange => [[.keyword "MapRange", .text 1, .keyword "from", .interval 2 3, .keyword "to",
      .interval 4 5, .keyword "into", .name 6]]
  | drawFloat => [[.keyword "Draw", .keyword "float", .keyword "between", .text 1, .keyword "and",
      .text 2, .keyword "into", .name 3]]
  | nowUtc => [[.keyword "NowUTC", .keyword "into", .name 1]]
  | decodeTime =>
    [[.keyword "DecodeTime", .literal 1 1, .keyword "as", .literal 2 1, .keyword "into", .name 3]]
  | dawnOf => unarySentence "DawnOf"
  | duskOf => unarySentence "DuskOf"
  | gapDays => [[.keyword "GapDays", .keyword "between", .text 1, .keyword "and", .text 2,
      .keyword "into", .name 3]]
  | gapSeconds => [[.keyword "GapSeconds", .keyword "between", .text 1, .keyword "and", .text 2,
      .keyword "into", .name 3]]
  | format => [[.keyword "Format", .text 1, .keyword "as", .literal 2 1, .keyword "into", .name 3]]
  | encodeJson => [[.keyword "Encode", .keyword "JSON", .text 1, .keyword "into", .name 2]]
  | decodeJson => [[.keyword "Decode", .keyword "JSON", .text 1, .keyword "into", .name 2]]
  | essenceOf => unarySentence "EssenceOf"
  | isVoid => unarySentence "IsVoid"
  | choose => unarySentence "Choose"
  | flip => [[.keyword "Flip", .keyword "with", .keyword "p", .text 1, .keyword "into", .name 2]]
  | weightedDraw => [[.keyword "WeightedDraw", .keyword "from", .text 1, .keyword "weights",
      .text 2, .keyword "into", .name 3]]

end Computation

namespace Deed

/-- The sentences of a deed. `Reveal` has none: a colon ends its verb, blanks or not. -/
def sentences : Deed → List Sentence
  | setPath => [[.keyword "Set", .path 1, .keyword "to", .text 2]]
  | sealName => [[.keyword "Seal", .name 1, .keyword "is", .text 2]]
  | reveal => []
  | summon => withClause [.keyword "Summon", .literal 1 1] [.keyword "as", .name 2] []
  | stir => [[.keyword "Stir", .text 1]]
  | bindFront => [[.keyword "BindFront", .text 1, .keyword "to", .name 2]]
  | pluckFirst => [[.keyword "PluckFirst", .keyword "from", .name 1, .keyword "into", .name 2]]
  | flood => [[.keyword "Flood", .name 1, .keyword "with", .text 2]]
  | sort => withClause [.keyword "Sort", .text 1] [.choice 2 "ascending" "descending"] []
  | reverse => [[.keyword "Reverse", .text 1]]
  | pluckKey => [[.keyword "Pluck", .keyword "key", .text 1, .keyword "from", .text 2]]
  | rebrand => [[.keyword "Rebrand", .keyword "key", .text 1, .keyword "as", .text 2, .keyword "in",
      .text 3]]
  | meld => [[.keyword "Meld", .text 1, .keyword "into", .text 2]]
  | scribe => [[.keyword "Scribe", .text 1, .keyword "as", .literal 2 1]]
  | imprint => [[.keyword "Imprint", .text 1, .keyword "to", .keyword "clipboard"]]

end Deed

/-! ## Reading sentences -/

/-- The notes of slots that are filled in this order. -/
def filled (operands : Nat → Text) (slots : List Nat) : Notes :=
  slots.reverse.map fun slot => (slot, operands slot)

theorem lookup_filled (operands : Nat → Text) (slots : List Nat) (slot : Nat) :
    (filled operands slots).lookup slot = if slot ∈ slots then some (operands slot) else none := by
  have hmap : ∀ slots : List Nat, (slots.map fun k => (k, operands k)).lookup slot
      = if slot ∈ slots then some (operands slot) else none := by
    intro slots
    induction slots with
    | nil => rfl
    | cons k slots ih =>
      rw [List.map_cons, List.lookup_cons, ih]
      by_cases hk : slot = k
      · subst hk
        simp
      · simp [hk, beq_eq_false_iff_ne.2 hk]
  rw [filled, hmap]
  simp only [List.mem_reverse]

theorem filled_append (operands : Nat → Text) (a b : List Nat) :
    filled operands (a ++ b) = filled operands b ++ filled operands a := by
  simp [filled]

theorem filled_congr {operands operands' : Nat → Text} {slots : List Nat}
    (h : ∀ slot ∈ slots, operands slot = operands' slot) :
    filled operands slots = filled operands' slots := by
  refine List.map_congr_left fun slot hslot => ?_
  rw [h slot (List.mem_reverse.1 hslot)]

namespace Symbol

open Pattern

variable {symbol : Symbol} {operands operands' : Nat → Text} {s : Text} {notes : Notes}

theorem writes_congr (h : ∀ slot ∈ symbol.slots, operands slot = operands' slot) :
    symbol.Writes operands s ↔ symbol.Writes operands' s := by
  cases symbol <;> simp_all [slots, Writes]

theorem fits_congr (h : ∀ slot ∈ symbol.slots, operands slot = operands' slot) :
    symbol.Fits operands ↔ symbol.Fits operands' := by
  cases symbol <;> simp_all [slots, Fits]

/-- A path has no slots of its own. -/
theorem notes_of_path (h : Takes
    (.andThen .identifier (.many (.andThen (.keyword ".") .identifier))) s notes) : notes = [] := by
  have hidentifier : ∀ {s notes}, identifier.Takes s notes → notes = [] := by
    rintro s notes ⟨_, _, _, _, -, rfl, ⟨-, rfl⟩, -, rfl⟩
    rfl
  obtain ⟨_, _, n₁, n₂, -, rfl, hfirst, hrest⟩ := h
  obtain rfl := hidentifier hfirst
  have hall : Repeated (Takes (.andThen (.keyword ".") .identifier)) _ n₂ := hrest
  rw [List.append_nil]
  clear hrest
  induction hall with
  | none => rfl
  | more first _ ih =>
    obtain ⟨_, _, _, _, -, rfl, ⟨-, rfl⟩, hname⟩ := first
    rw [ih, hidentifier hname]
    rfl

/-- A mark that no letter case changes. -/
theorem takes_mark {c : Char} (hc : (foldCase c).isLower = false) :
    Takes (.word [c]) s notes ↔ s = [c] ∧ notes = [] := by
  constructor
  · rintro ⟨hfold, hnotes⟩
    obtain ⟨d, rfl, hd⟩ := List.map_eq_singleton_iff.1 hfold
    exact ⟨congrArg (fun c => [c]) (Text.eq_of_foldCase_eq hc hd), hnotes⟩
  · rintro ⟨rfl, rfl⟩
    exact ⟨rfl, rfl⟩

/-- What the pieces of a symbol take is the symbol, written with what they note. -/
theorem exists_writes_of_takesAll (hslots : symbol.slots.Nodup)
    (h : TakesAll symbol.pieces s notes) :
    ∃ operands, symbol.Writes operands s ∧ symbol.Fits operands ∧
      notes = filled operands symbol.slots := by
  cases symbol with
  | keyword letters =>
    obtain ⟨hfold, rfl⟩ := takesAll_singleton.1 h
    exact ⟨fun _ => [], hfold, trivial, rfl⟩
  | choice slot first second =>
    obtain ⟨inner, hbody, rfl⟩ := takesAll_singleton.1 h
    rcases hbody with ⟨hfold, rfl⟩ | ⟨hfold, rfl⟩
    · exact ⟨fun _ => s, rfl, List.mem_cons.2 (.inl hfold), rfl⟩
    · exact ⟨fun _ => s, rfl, List.mem_cons_of_mem _ (List.mem_singleton.2 hfold), rfl⟩
  | text slot =>
    obtain ⟨inner, ⟨⟨hlen, -⟩, rfl⟩, rfl⟩ := takesAll_singleton.1 h
    exact ⟨fun _ => s, rfl, List.length_pos_iff.1 hlen, rfl⟩
  | name slot =>
    obtain ⟨inner, ⟨⟨hlen, hall⟩, rfl⟩, rfl⟩ := takesAll_singleton.1 h
    exact ⟨fun _ => s, rfl, ⟨List.length_pos_iff.1 hlen, hall⟩, rfl⟩
  | path slot =>
    obtain ⟨inner, hbody, rfl⟩ := takesAll_singleton.1 h
    obtain rfl := notes_of_path hbody
    exact ⟨fun _ => s, rfl, hbody, rfl⟩
  | literal slot least =>
    obtain ⟨q, t, _, m, rfl, rfl, hopen, t, q', _, m', rfl, rfl, ⟨inner, hbody, rfl⟩, hclose⟩ := h
    obtain ⟨rfl, rfl⟩ := (takes_mark (c := '"') (by decide)).1 hopen
    obtain ⟨rfl, rfl⟩ := (takes_mark (c := '"') (by decide)).1 (takesAll_singleton.1 hclose)
    obtain ⟨⟨hlen, hall⟩, rfl⟩ := hbody
    refine ⟨fun _ => t, rfl, ⟨hlen, fun hmem => ?_⟩, rfl⟩
    exact absurd (hall _ hmem) (by decide)
  | member first second =>
    obtain ⟨t, _, _, m, rfl, rfl, ⟨_, hf, rfl⟩, p, u, _, m', rfl, rfl, hpoint, hsec⟩ := h
    obtain ⟨rfl, rfl⟩ := (takes_mark (c := '.') (by decide)).1 hpoint
    obtain ⟨_, ⟨⟨hlen', hall'⟩, rfl⟩, rfl⟩ := takesAll_singleton.1 hsec
    obtain ⟨⟨hlen, hall⟩, rfl⟩ := hf
    have hne : first ≠ second := by simpa [slots] using hslots
    refine ⟨fun k => if k = first then t else u, ?_, ?_, ?_⟩
    · simp [Writes, hne.symm]
    · simp only [Fits, if_pos, if_neg hne.symm]
      exact ⟨⟨List.length_pos_iff.1 hlen, hall⟩, List.length_pos_iff.1 hlen', hall'⟩
    · simp [filled, slots, hne.symm]
  | interval first second =>
    obtain ⟨t, _, _, m, rfl, rfl, ⟨_, hf, rfl⟩, p, u, _, m', rfl, rfl, ⟨hpoints, rfl⟩, hsec⟩ := h
    obtain ⟨_, ⟨⟨hlen', -⟩, rfl⟩, rfl⟩ := takesAll_singleton.1 hsec
    obtain ⟨⟨hlen, -⟩, rfl⟩ := hf
    have hpoints : p.map foldCase = [foldCase '.', foldCase '.'] := hpoints
    obtain rfl : p = ['.', '.'] := by
      obtain ⟨c, _, rfl, hc, hrest⟩ := List.map_eq_cons_iff.1 hpoints
      obtain ⟨d, rfl, hd⟩ := List.map_eq_singleton_iff.1 hrest
      rw [Text.eq_of_foldCase_eq (by decide) hc, Text.eq_of_foldCase_eq (by decide) hd]
    have hne : first ≠ second := by simpa [slots] using hslots
    refine ⟨fun k => if k = first then t else u, ?_, ?_, ?_⟩
    · simp [Writes, hne.symm]
    · simp only [Fits, if_pos, if_neg hne.symm]
      exact ⟨List.length_pos_iff.1 hlen, List.length_pos_iff.1 hlen'⟩
    · simp [filled, slots, hne.symm]

/-- A symbol that is written with operands that fit is taken by its pieces. -/
theorem takesAll_of_writes (hfits : symbol.Fits operands) (h : symbol.Writes operands s) :
    TakesAll symbol.pieces s (filled operands symbol.slots) := by
  cases symbol with
  | keyword letters => exact takesAll_singleton.2 ⟨h, rfl⟩
  | choice slot first second =>
    obtain rfl : s = operands slot := h
    refine takesAll_singleton.2 ⟨[], ?_, rfl⟩
    rcases List.mem_cons.1 hfits with hfold | hfold
    · exact .inl ⟨hfold, rfl⟩
    · exact .inr ⟨List.mem_singleton.1 hfold, rfl⟩
  | text slot =>
    obtain rfl : s = operands slot := h
    exact takesAll_singleton.2 ⟨[], ⟨⟨List.length_pos_iff.2 hfits, fun _ _ => rfl⟩, rfl⟩, rfl⟩
  | name slot =>
    obtain rfl : s = operands slot := h
    exact takesAll_singleton.2 ⟨[], ⟨⟨List.length_pos_iff.2 hfits.1, hfits.2⟩, rfl⟩, rfl⟩
  | path slot =>
    obtain rfl : s = operands slot := h
    exact takesAll_singleton.2 ⟨[], hfits, rfl⟩
  | literal slot least =>
    obtain rfl : s = '"' :: (operands slot ++ ['"']) := h
    refine ⟨['"'], operands slot ++ ['"'], [], _, rfl, (List.append_nil _).symm, ⟨rfl, rfl⟩,
      operands slot, ['"'], [(slot, operands slot)], [], rfl, rfl, ⟨[], ⟨⟨hfits.1, ?_⟩, rfl⟩, rfl⟩,
      takesAll_singleton.2 ⟨rfl, rfl⟩⟩
    intro c hc
    refine bne_iff_ne.2 ?_
    rintro rfl
    exact hfits.2 hc
  | member first second =>
    obtain rfl : s = operands first ++ '.' :: operands second := h
    obtain ⟨⟨hne, hall⟩, hne', hall'⟩ := hfits
    exact ⟨operands first, _, [(first, operands first)], [(second, operands second)], rfl, rfl,
      ⟨[], ⟨⟨List.length_pos_iff.2 hne, hall⟩, rfl⟩, rfl⟩,
      ['.'], operands second, [], _, rfl, (List.append_nil _).symm, ⟨rfl, rfl⟩,
      takesAll_singleton.2 ⟨[], ⟨⟨List.length_pos_iff.2 hne', hall'⟩, rfl⟩, rfl⟩⟩
  | interval first second =>
    obtain rfl : s = operands first ++ '.' :: '.' :: operands second := h
    exact ⟨operands first, _, [(first, operands first)], [(second, operands second)], rfl, rfl,
      ⟨[], ⟨⟨List.length_pos_iff.2 hfits.1, fun _ _ => rfl⟩, rfl⟩, rfl⟩,
      ['.', '.'], operands second, [], _, rfl, (List.append_nil _).symm, ⟨rfl, rfl⟩,
      takesAll_singleton.2 ⟨[], ⟨⟨List.length_pos_iff.2 hfits.2, fun _ _ => rfl⟩, rfl⟩, rfl⟩⟩

end Symbol

namespace Sentence

open Pattern

variable {symbols : Sentence} {operands operands' : Nat → Text} {s : Text} {notes : Notes}

theorem writes_congr (h : ∀ slot ∈ slots symbols, operands slot = operands' slot) :
    Writes operands symbols s ↔ Writes operands' symbols s := by
  induction symbols generalizing s with
  | nil => exact Iff.rfl
  | cons symbol rest ih =>
    rw [slots, List.flatMap_cons, List.forall_mem_append] at h
    cases rest with
    | nil => exact Symbol.writes_congr h.1
    | cons next rest => simp only [Writes, ih h.2, Symbol.writes_congr h.1]

/-- What the strand of a sentence takes is the sentence, written with what is noted. -/
theorem exists_writes_of_takesAll (hslots : (slots symbols).Nodup)
    (h : TakesAll (strand symbols) s notes) :
    ∃ operands, Writes operands symbols s ∧ (∀ symbol ∈ symbols, symbol.Fits operands) ∧
      notes = filled operands (slots symbols) := by
  induction symbols generalizing s notes with
  | nil =>
    obtain ⟨rfl, rfl⟩ := h
    exact ⟨fun _ => [], rfl, by simp, rfl⟩
  | cons symbol rest ih =>
    rw [slots, List.flatMap_cons, List.nodup_append] at hslots
    obtain ⟨hsymbol, hrest, hapart⟩ := hslots
    cases rest with
    | nil =>
      obtain ⟨operands, hw, hfits, rfl⟩ := Symbol.exists_writes_of_takesAll hsymbol h
      refine ⟨operands, hw, by simpa using hfits, ?_⟩
      rw [slots, List.flatMap_singleton]
    | cons next rest =>
      obtain ⟨w, _, n₁, _, rfl, rfl, hpieces, g, t, _, n₂, rfl, rfl, ⟨⟨hlen, hblank⟩, rfl⟩,
        hstrand⟩ := takesAll_append.1 h
      obtain ⟨first, hw, hfits, rfl⟩ := Symbol.exists_writes_of_takesAll hsymbol hpieces
      obtain ⟨later, ht, hfits', rfl⟩ := ih hrest hstrand
      -- the operands of the first symbol, and behind it those of the rest
      have hfirst : ∀ k ∈ symbol.slots, first k = if k ∈ symbol.slots then first k else later k :=
        fun k hk => (if_pos hk).symm
      have hlater : ∀ k ∈ slots (next :: rest),
          later k = if k ∈ symbol.slots then first k else later k :=
        fun k hk => (if_neg fun hmem => hapart k hmem k hk rfl).symm
      refine ⟨fun k => if k ∈ symbol.slots then first k else later k,
        ⟨w, g, t, rfl, (Symbol.writes_congr hfirst).1 hw, ⟨List.length_pos_iff.1 hlen, hblank⟩,
          (writes_congr hlater).1 ht⟩, ?_, ?_⟩
      · intro other hother
        rcases List.mem_cons.1 hother with rfl | hother
        · exact (Symbol.fits_congr hfirst).1 hfits
        · refine (Symbol.fits_congr fun k hk => hlater k ?_).1 (hfits' other hother)
          exact List.mem_flatMap.2 ⟨other, hother, hk⟩
      · rw [filled_congr hfirst, filled_congr hlater, List.append_nil]
        exact (filled_append _ symbol.slots (slots (next :: rest))).symm

theorem takesAll_of_writes (hfits : ∀ symbol ∈ symbols, symbol.Fits operands)
    (h : Writes operands symbols s) :
    TakesAll (strand symbols) s (filled operands (slots symbols)) := by
  induction symbols generalizing s with
  | nil => exact ⟨h, rfl⟩
  | cons symbol rest ih =>
    obtain ⟨hsymbol, hrest⟩ := List.forall_mem_cons.1 hfits
    cases rest with
    | nil =>
      rw [slots, List.flatMap_singleton]
      exact Symbol.takesAll_of_writes hsymbol h
    | cons next rest =>
      obtain ⟨w, g, t, rfl, hw, ⟨hne, hblank⟩, ht⟩ := h
      rw [slots, List.flatMap_cons, filled_append]
      refine takesAll_append.2 ⟨w, g ++ t, _, _, rfl, rfl, Symbol.takesAll_of_writes hsymbol hw,
        g, t, [], _, rfl, (List.append_nil _).symm, ⟨⟨List.length_pos_iff.2 hne, hblank⟩, rfl⟩,
        ih hrest ht⟩

end Sentence

namespace Form

/-- The sentences of a form. -/
def sentences : Form → List Sentence
  | computation c => c.sentences
  | deed d => d.sentences

/-- The pattern of a form without the ending. -/
def phrase : Form → Pattern
  | computation c => c.pattern
  | deed d => d.pattern

theorem pattern_eq {form : Form} (h : form ≠ .deed .reveal) :
    form.pattern = .all [form.phrase, .space, ending] := by
  rcases form with c | d
  · rfl
  · cases d <;> first | rfl | exact absurd rfl h

/-- The strands of a phrase are the sentences of the form. -/
theorem strands_phrase {form : Form} (h : form ≠ .deed .reveal) :
    form.phrase.blunt.strands = form.sentences.map Sentence.strand := by
  rcases form with c | d
  · cases c <;> rfl
  · cases d <;> first | rfl | exact absurd rfl h

theorem steady_phrase (form : Form) : form.phrase.steady = true := by
  rcases form with c | d
  · cases c <;> rfl
  · cases d <;> rfl

end Form

end Grimoire
