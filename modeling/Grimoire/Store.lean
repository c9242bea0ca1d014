import Grimoire.Table
import Grimoire.Value

/-!
# The store

The store holds the elements of every sequence and the entries of every tome. Cells are added at
the end and never removed, so a cell that exists keeps its name; its contents may be replaced.
-/

namespace Grimoire

/-- The contents of all sequences and tomes. -/
structure Store where
  sequences : Array (List Value) := #[]
  tomes : Array (Table Value) := #[]

namespace Store

instance : Inhabited Store := ⟨{}⟩

/-- The number of cells. -/
def cells (s : Store) : Nat :=
  s.sequences.size + s.tomes.size

/-- The elements of a sequence. -/
def items (s : Store) (cell : Nat) : List Value :=
  s.sequences.getD cell []

/-- The entries of a tome. -/
def entries (s : Store) (cell : Nat) : Table Value :=
  s.tomes.getD cell .empty

/-- Adds a sequence. -/
def newSequence (s : Store) (items : List Value) : Value × Store :=
  (.sequence s.sequences.size, { s with sequences := s.sequences.push items })

/-- Adds a tome. -/
def newTome (s : Store) (entries : Table Value) : Value × Store :=
  (.tome s.tomes.size, { s with tomes := s.tomes.push entries })

/-- Replaces the elements of a sequence. -/
def setItems (s : Store) (cell : Nat) (items : List Value) : Store :=
  { s with sequences := s.sequences.setIfInBounds cell items }

/-- Replaces the entries of a tome. -/
def setEntries (s : Store) (cell : Nat) (entries : Table Value) : Store :=
  { s with tomes := s.tomes.setIfInBounds cell entries }

/-- What a value directly contains. -/
def contents (s : Store) : Value → List Value
  | .sequence cell => s.items cell
  | .tome cell => (s.entries cell).values
  | _ => []

/-! ## Extension -/

/-- `t` has all cells of `s` with the same contents, and perhaps more. -/
def Extends (s t : Store) : Prop :=
  (s.sequences.toList <+: t.sequences.toList) ∧ (s.tomes.toList <+: t.tomes.toList)

theorem Extends.refl (s : Store) : s.Extends s :=
  ⟨List.prefix_refl _, List.prefix_refl _⟩

theorem Extends.trans {s t u : Store} (h : s.Extends t) (h' : t.Extends u) : s.Extends u :=
  ⟨h.1.trans h'.1, h.2.trans h'.2⟩

theorem extends_newSequence (s : Store) (items : List Value) :
    s.Extends (s.newSequence items).2 := by
  simp [Extends, newSequence]

theorem extends_newTome (s : Store) (entries : Table Value) :
    s.Extends (s.newTome entries).2 := by
  simp [Extends, newTome]

end Store

end Grimoire
