import Grimoire.Fault
import Grimoire.Text.Case

/-!
# Blocks

Lines open and close blocks by their first words alone. A block reaches from its opener to the
`conclude` before which as many blocks were closed as opened; an `otherwise:` belongs to the block
in which it stands. Some openers are reserved: nothing runs them, but they count.
-/

namespace Grimoire

/-! ## The roles of lines -/

/-- What a line does to blocks. -/
inductive Role where
  | opener
  | conclude
  | otherwise
  | plain
  deriving DecidableEq, Repr

namespace Text

/-- The words that open a block. A blank at the end has to be there; after the other words a blank,
a colon or the end of the line follows. -/
def openers : List Text :=
  ["when".toList, "repeat ".toList, "repeat each ".toList, "for each ".toList,
    "for each key".toList, "enumerate ".toList, "stride ".toList, "until ".toList, "ward ".toList,
    "guard ".toList, "as long as".toList, "choose upon ".toList, "inscribe ".toList,
    "attempt".toList, "count ".toList]

/-- Whether a lowered line begins with the words of an opener. -/
def beginsOpener (line words : Text) : Bool :=
  startsWith words line &&
    (words.getLast? == some ' ' ||
      (line.drop words.length).head?.all fun c => isBlank c || c == ':')

/-- Whether a line opens a block. -/
def isOpener (line : Text) : Bool :=
  openers.any (beginsOpener line.trim.lowercase)

/-- Whether a text is a word of the first block, in any letter case. -/
def isWordNamed (word : String) (s : Text) : Bool :=
  s.map Char.toLower == word.toList

/-- Whether a line closes a block. -/
def isConclude (line : Text) : Bool :=
  isWordNamed "conclude" line.trim

/-- Whether a line separates the two parts of a block. -/
def isOtherwise (line : Text) : Bool :=
  (dropLast? ':' line.trim).any fun word => isWordNamed "otherwise" (trimEnd word)

/-- The role of a line. -/
def role (line : Text) : Role :=
  if line.isConclude then .conclude
  else if line.isOpener then .opener
  else if line.isOtherwise then .otherwise
  else .plain

/-- The first word of an opener, in lower case. -/
def openerName (line : Text) : Text :=
  lowercase (line.trim.takeWhile fun c => !isBlank c && c != ':')

end Text

/-! ## Matching -/

namespace Block

/-- Where the block closes inside which `depth` more blocks are open, given the roles of the lines
that follow. -/
def closeFrom : Nat → List Role → Option Nat
  | _, [] => none
  | 0, .conclude :: _ => some 0
  | depth + 1, .conclude :: rest => (closeFrom depth rest).map (· + 1)
  | depth, .opener :: rest => (closeFrom (depth + 1) rest).map (· + 1)
  | depth, _ :: rest => (closeFrom depth rest).map (· + 1)

/-- The place of the `conclude` of a block among the lines after its opener. -/
def close? (roles : List Role) : Option Nat :=
  closeFrom 0 roles

/-- Where the `otherwise:` of a block stands while `depth` more blocks are open. -/
def otherwiseFrom : Nat → List Role → Option Nat
  | _, [] => none
  | 0, .otherwise :: _ => some 0
  | depth, .opener :: rest => (otherwiseFrom (depth + 1) rest).map (· + 1)
  | depth, .conclude :: rest => (otherwiseFrom (depth - 1) rest).map (· + 1)
  | depth, _ :: rest => (otherwiseFrom depth rest).map (· + 1)

/-- The place of the `otherwise:` of a block among the lines of its body. -/
def otherwise? (roles : List Role) : Option Nat :=
  otherwiseFrom 0 roles

theorem lt_length_of_closeFrom {depth place : Nat} {roles : List Role}
    (h : closeFrom depth roles = some place) : place < roles.length := by
  induction roles generalizing depth place with
  | nil => simp [closeFrom] at h
  | cons role rest ih =>
    have step : ∀ {d}, (closeFrom d rest).map (· + 1) = some place →
        place < (role :: rest).length := by
      intro d h
      obtain ⟨p, hp, rfl⟩ := Option.map_eq_some_iff.1 h
      exact Nat.succ_lt_succ (ih hp)
    unfold closeFrom at h
    split at h <;> first | contradiction | skip
    · injection h with h
      subst h
      simp
    all_goals
      next heq =>
        injection heq with _ heq
        subst heq
        exact step h

/-! ## Blocks of a list of lines -/

/-- The index at which the block opened at an index closes. -/
def end? (lines : List Text) (opener : Nat) : Except Fault Nat :=
  match close? ((lines.drop (opener + 1)).map Text.role) with
  | some place => .ok (opener + 1 + place)
  | none => .error (.unterminatedBlock (Text.openerName (lines.getD opener [])) (opener + 1))

/-- The index of the `otherwise:` of a block between two indices. -/
def otherwiseBetween? (lines : List Text) (opener close : Nat) : Option Nat :=
  (otherwise? (((lines.take close).drop (opener + 1)).map Text.role)).map (opener + 1 + ·)

end Block

end Grimoire
