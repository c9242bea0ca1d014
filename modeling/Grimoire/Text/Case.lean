import Grimoire.Text.Basic
import Grimoire.Text.CaseTable

/-!
# Case

Upper and lower case over all scripts. A character may map to several; a capital sigma at the end
of a word has a lower-case form of its own, which only the mapping of a whole text knows.
-/

namespace Grimoire

/-- The mapping of one code point given by a list of special mappings and a list of runs. -/
def mapCase (special : List (Nat × List Nat)) (runs : List CaseRun) (c : Char) : Text :=
  match special.lookup c.toNat with
  | some points => points.map Char.ofNat
  | none => [Char.ofNat (CaseRun.apply runs c.toNat)]

/-- The upper case of one character. -/
def upperChar (c : Char) : Text :=
  if c.toNat < 0x80 then [c.toUpper] else mapCase upperSpecial upperRuns c

/-- The lower case of one character on its own. -/
def lowerChar (c : Char) : Text :=
  if c.toNat < 0x80 then [c.toLower] else mapCase lowerSpecial lowerRuns c

/-- Whether the first character that is not case-ignorable is there and is cased. -/
def casedAhead (s : Text) : Bool :=
  match s.dropWhile caseIgnorableRanges.covers with
  | c :: _ => casedRanges.covers c
  | [] => false

/-- The lower case of a capital sigma between `before` (nearest first) and `after`: the final form
after a cased character and before none. -/
def lowerSigma (before after : Text) : Char :=
  if casedAhead before && !casedAhead after then 'ς' else 'σ'

namespace Text

/-- The upper case of a text. -/
def uppercase (s : Text) : Text :=
  s.flatMap upperChar

/-- Lowers `rest`, given the characters `before` it and the result `done` so far, both reversed. -/
def lowerFrom (before done : Text) : Text → Text
  | [] => done.reverse
  | c :: rest =>
    if c = 'Σ' then lowerFrom (c :: before) (lowerSigma before rest :: done) rest
    else lowerFrom (c :: before) ((lowerChar c).reverse ++ done) rest

/-- The lower case of a text. -/
def lowercase (s : Text) : Text :=
  lowerFrom [] [] s

end Text

end Grimoire
