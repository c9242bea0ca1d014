import Grimoire.Text.Blank

/-!
# Texts

A text is a list of characters. Lengths and positions count characters; where a byte count is
wanted it is the count of the UTF-8 form. The operations here are those of any text: trimming,
splitting, searching, replacing and joining.
-/

namespace Grimoire

/-- A text is the list of its characters. -/
abbrev Text := List Char

namespace Text

/-! ## Trimming -/

/-- Drops the blanks at the start. -/
def trimStart (s : Text) : Text :=
  s.dropWhile isBlank

/-- Drops the blanks at the end. -/
def trimEnd (s : Text) : Text :=
  (s.reverse.dropWhile isBlank).reverse

/-- Drops the blanks at both ends. -/
def trim (s : Text) : Text :=
  trimEnd (trimStart s)

theorem length_trimStart_le (s : Text) : (trimStart s).length ≤ s.length :=
  (List.dropWhile_suffix isBlank).length_le

theorem length_trimEnd_le (s : Text) : (trimEnd s).length ≤ s.length := by
  have := (List.dropWhile_suffix isBlank (l := s.reverse)).length_le
  simpa [trimEnd] using this

theorem length_trim_le (s : Text) : (trim s).length ≤ s.length :=
  Nat.le_trans (length_trimEnd_le _) (length_trimStart_le s)

/-! ## Beginnings and ends -/

/-- Whether `s` begins with `start`. -/
def startsWith (start s : Text) : Bool :=
  start.isPrefixOf s

/-- Whether `s` ends with `stop`. -/
def endsWith (stop s : Text) : Bool :=
  stop.isSuffixOf s

/-- What follows `c` at the start of a text. -/
def dropFirst? (c : Char) : Text → Option Text
  | [] => none
  | d :: rest => if d = c then some rest else none

/-- What precedes `c` at the end of a text. -/
def dropLast? (c : Char) (s : Text) : Option Text :=
  if s.getLast? = some c then some s.dropLast else none

/-! ## Splitting and joining -/

/-- The pieces between the occurrences of `sep`; there is always at least one. -/
def splitOn (sep : Char) (s : Text) : List Text :=
  s.foldr (fun c pieces =>
    if c = sep then [] :: pieces
    else match pieces with
      | [] => [[c]]
      | piece :: more => (c :: piece) :: more) [[]]

theorem splitOn_cons (sep c : Char) (s : Text) :
    splitOn sep (c :: s) =
      if c = sep then [] :: splitOn sep s
      else match splitOn sep s with
        | [] => [[c]]
        | piece :: more => (c :: piece) :: more := rfl

/-- The first piece of a text is what precedes the separator. It is the whole text if no other piece
follows. -/
theorem exists_splitOn_eq (sep : Char) (s : Text) :
    ∃ rest, splitOn sep s = s.takeWhile (· ≠ sep) :: rest ∧
      (rest = [] → s.takeWhile (· ≠ sep) = s) := by
  induction s with
  | nil => exact ⟨[], rfl, fun _ => rfl⟩
  | cons c s ih =>
    obtain ⟨rest, hsplit, hwhole⟩ := ih
    rw [splitOn_cons]
    by_cases hc : c = sep
    · rw [if_pos hc, List.takeWhile_cons_of_neg (by simpa using hc)]
      refine ⟨splitOn sep s, rfl, ?_⟩
      intro hnone
      rw [hnone] at hsplit
      cases hsplit
    · rw [if_neg hc, hsplit, List.takeWhile_cons_of_pos (by simpa using hc)]
      exact ⟨rest, rfl, fun hrest => congrArg (c :: ·) (hwhole hrest)⟩

/-- Joins texts with `sep` between them. -/
def join (sep : Text) (pieces : List Text) : Text :=
  sep.intercalate pieces

/-- Drops one carriage return at the end. -/
def dropReturn (line : Text) : Text :=
  (dropLast? '\r' line).getD line

/-- The lines of a text. A line feed ends a line and takes a carriage return before it along; the
last line may lack one. -/
def lines (s : Text) : List Text :=
  let pieces := splitOn '\n' s
  let ended := pieces.dropLast.map dropReturn
  match pieces.getLast? with
  | some [] => ended
  | some last => ended ++ [last]
  | none => ended

/-! ## Searching and replacing -/

/-- The position of the first occurrence of `needle` in a text that starts at position `start`. -/
def findFrom (needle : Text) (start : Nat) : Text → Option Nat
  | [] => if needle.isEmpty then some start else none
  | c :: rest =>
    if needle.isPrefixOf (c :: rest) then some start else findFrom needle (start + 1) rest

/-- The position of the first occurrence of `needle`. -/
def find? (needle s : Text) : Option Nat :=
  findFrom needle 0 s

/-- Whether `needle` occurs in `s`. -/
def includes (needle s : Text) : Bool :=
  (find? needle s).isSome

/-- Cuts a text at the occurrences of a non-empty needle, found from the left without overlap.
`skip` counts the characters of the last occurrence still to pass over; `piece` is the piece being
read and `done` the pieces read, both reversed. -/
def cutFrom (needle : Text) (skip : Nat) (piece : Text) (done : List Text) : Text → List Text
  | [] => (piece.reverse :: done).reverse
  | c :: rest =>
    match skip with
    | left + 1 => cutFrom needle left piece done rest
    | 0 =>
      if needle.isPrefixOf (c :: rest) then
        cutFrom needle (needle.length - 1) [] (piece.reverse :: done) rest
      else cutFrom needle 0 (c :: piece) done rest

/-- The pieces between the occurrences of a non-empty needle. -/
def cut (needle s : Text) : List Text :=
  cutFrom needle 0 [] [] s

/-- How often a needle occurs, without overlap; an empty needle occurs nowhere. -/
def occurrences (needle s : Text) : Nat :=
  if needle.isEmpty then 0 else (cut needle s).length - 1

/-- Puts `new` for every occurrence of `old`. An empty `old` threads `new` between the
characters. -/
def replace (old new s : Text) : Text :=
  if old.isEmpty then join new (s.map fun c => [c]) else join new (cut old s)

/-- Copies of a text, one after the other. -/
def repeated (times : Nat) (s : Text) : Text :=
  if s.isEmpty then [] else Nat.repeat (s ++ ·) times []

/-! ## Bytes -/

/-- The length of the UTF-8 form. -/
def byteLength (s : Text) : Nat :=
  s.foldr (fun c n => c.utf8Size + n) 0

theorem byteLength_cons (c : Char) (s : Text) : byteLength (c :: s) = c.utf8Size + byteLength s :=
  rfl

theorem byteLength_append (s t : Text) : byteLength (s ++ t) = byteLength s + byteLength t := by
  induction s with
  | nil => exact (Nat.zero_add _).symm
  | cons c rest ih => rw [List.cons_append, byteLength_cons, byteLength_cons, ih, Nat.add_assoc]

theorem byteLength_replicate (n : Nat) (c : Char) :
    byteLength (List.replicate n c) = n * c.utf8Size := by
  induction n with
  | zero => exact (Nat.zero_mul _).symm
  | succ n ih => rw [List.replicate_succ, byteLength_cons, ih, Nat.succ_mul, Nat.add_comm]

/-- Splits off the characters that fill the first `n` bytes; fails when byte `n` is inside a
character or past the end. -/
def splitBytes? : Nat → Text → Option (Text × Text)
  | 0, s => some ([], s)
  | _ + 1, [] => none
  | n + 1, c :: rest =>
    if c.utf8Size ≤ n + 1 then
      (splitBytes? (n + 1 - c.utf8Size) rest).map fun (taken, left) => (c :: taken, left)
    else none
termination_by _ s => s.length

/-- The characters that fill the bytes from `start` up to `stop`. -/
def sliceBytes? (start stop : Nat) (s : Text) : Option Text := do
  let (_, rest) ← splitBytes? start s
  let (slice, _) ← splitBytes? (stop - start) rest
  return slice

/-! ## Order -/

/-- The order of texts by code point, a shorter text before its extensions. -/
def compare : Text → Text → Ordering
  | [], [] => .eq
  | [], _ :: _ => .lt
  | _ :: _, [] => .gt
  | c :: s, d :: t => (Ord.compare c.toNat d.toNat).then (compare s t)

/-! ## Counts written out -/

/-- A count in decimal digits. -/
def ofNat (n : Nat) : Text :=
  Nat.toDigits 10 n

/-- An integer in decimal digits, with a sign when it is negative. -/
def ofInt : Int → Text
  | .ofNat n => ofNat n
  | .negSucc n => '-' :: ofNat (n + 1)

/-- A text with zeros put before it up to `width` characters. -/
def padZeros (width : Nat) (s : Text) : Text :=
  List.replicate (width - s.length) '0' ++ s

end Text

end Grimoire
