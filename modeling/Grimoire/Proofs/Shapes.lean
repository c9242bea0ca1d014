import Grimoire.Expr.Reader

/-!
# The shapes in a text

The reader makes a shape of a text only if there are not too many parameters and all of them are
identifiers. It looks nowhere else for shapes, so every shape in the expression of a text is of that
kind, however deep in lists, arguments and operands it stands.
-/

namespace Grimoire

/-- Parameters as they may be: identifiers, and not too many of them. -/
structure Shape.WellFormed (f : Shape) : Prop where
  few : f.parameters.length ≤ maxShapeParameters
  named : ∀ p ∈ f.parameters, p.isIdentifier = true

instance (f : Shape) : Decidable f.WellFormed :=
  decidable_of_iff (_ ∧ _) ⟨fun ⟨few, named⟩ => ⟨few, named⟩, fun h => ⟨h.few, h.named⟩⟩

namespace Text

variable {parameters : List Text} {body : Text} {f : Shape}

theorem makeShape_of_wellFormed (h : Shape.WellFormed ⟨parameters, body⟩) :
    makeShape parameters body = .ok ⟨parameters, body⟩ := by
  have hnone : parameters.find? (fun p => !p.isIdentifier) = none :=
    List.find?_eq_none.2 fun p hp => by rw [h.named p hp]; exact Bool.false_ne_true
  rw [makeShape, if_neg (Nat.not_lt.2 h.few), hnone]

theorem makeShape_eq_ok (h : makeShape parameters body = .ok f) :
    f = ⟨parameters, body⟩ ∧ f.WellFormed := by
  unfold makeShape at h
  split at h
  · cases h
  · next hfew =>
    split at h
    · cases h
    · next hnone =>
      cases h
      refine ⟨rfl, Nat.not_lt.1 hfew, fun p hp => ?_⟩
      simpa using List.find?_eq_none.1 hnone p hp

end Text

namespace Layer

variable {s : Text} {f : Shape}

theorem wellFormed_of_ofShape {parameters : List Text} {body : Text}
    (h : ofShape parameters body = shape f) : f.WellFormed := by
  unfold ofShape at h
  split at h
  · next made hmade =>
    cases h
    exact (Text.makeShape_eq_ok hmade).2
  · cases h

theorem ofOperators_ne_shape : ofOperators s ≠ shape f := by
  unfold ofOperators
  split
  · nofun
  · split <;> nofun

theorem wellFormed_of_ofCompound (h : ofCompound s = shape f) : f.WellFormed := by
  unfold ofCompound at h
  split at h
  · cases h
  · split at h
    · unfold ofPath at h
      split at h <;> cases h
    · split at h
      · exact wellFormed_of_ofShape h
      · exact absurd h ofOperators_ne_shape

/-- A text that is read as a shape is read as one that is well formed. -/
theorem wellFormed_of_shape (h : of s = shape f) : f.WellFormed := by
  unfold of at h
  split at h
  · cases h
  · cases h
  · split at h
    · cases h
    · split at h
      · cases h
      · split at h
        · cases h
        · unfold ofContainer at h
          split at h
          · cases h
          · split at h
            · cases h
            · exact wellFormed_of_ofCompound h

end Layer

namespace Expr

mutual

/-- The shapes that stand in an expression. -/
def shapes : Expr → List Shape
  | .shape f => [f]
  | .sequence items => shapesOfAll items
  | .tome entries => shapesOfEntries entries
  | .invoke _ _ args => shapesOfAll args
  | .binary left _ right => left.shapes ++ right.shapes
  | .text _ | .boolean _ | .number _ | .path _ _ | .malformed _ => []

/-- The shapes that stand in several expressions. -/
def shapesOfAll : List Expr → List Shape
  | [] => []
  | e :: rest => e.shapes ++ shapesOfAll rest

/-- The shapes that stand in the entries of a tome. -/
def shapesOfEntries : List (Text × Expr) → List Shape
  | [] => []
  | (_, e) :: rest => e.shapes ++ shapesOfEntries rest

end

variable {f : Shape}

theorem shapesOfAll_eq (es : List Expr) : shapesOfAll es = es.flatMap shapes := by
  induction es with
  | nil => rfl
  | cons e rest ih => rw [shapesOfAll, ih, List.flatMap_cons]

theorem shapesOfEntries_eq (es : List (Text × Expr)) :
    shapesOfEntries es = es.flatMap fun entry => entry.2.shapes := by
  induction es with
  | nil => rfl
  | cons entry rest ih => rw [shapesOfEntries, ih, List.flatMap_cons]

/-- A shape in the expression of a layer is the layer itself or stands in one of its parts. -/
theorem exists_of_mem_shapes_assemble {read : Text → Expr} {layer : Layer}
    (h : f ∈ (layer.assemble read).shapes) :
    layer = .shape f ∨ ∃ part ∈ layer.parts, f ∈ (read part).shapes := by
  cases layer with
  | shape made =>
    obtain rfl := List.mem_singleton.1 h
    exact .inl rfl
  | sequence pieces | invoke name function pieces =>
    rw [Layer.assemble, shapes, shapesOfAll_eq, List.flatMap_map] at h
    exact .inr (List.mem_flatMap.1 h)
  | tome pairs =>
    rw [Layer.assemble, shapes, shapesOfEntries_eq, List.flatMap_map] at h
    obtain ⟨pair, hpair, h⟩ := List.mem_flatMap.1 h
    exact .inr ⟨pair.2, List.mem_map_of_mem hpair, h⟩
  | group inner => exact .inr ⟨inner, List.mem_singleton_self inner, h⟩
  | binary left op right =>
    rw [Layer.assemble, shapes, List.mem_append] at h
    refine .inr (h.elim (fun h => ⟨left, by simp [Layer.parts], h⟩) fun h => ?_)
    exact ⟨right, by simp [Layer.parts], h⟩
  | text | boolean | number | path | malformed => cases h

/-- Every shape in the expression of a text is well formed. -/
theorem wellFormed_of_mem_shapes {s : Text} (h : f ∈ (ofText s).shapes) : f.WellFormed := by
  induction hlength : s.length using Nat.strongRecOn generalizing s with
  | _ length ih =>
    rw [ofText_eq_assemble] at h
    rcases exists_of_mem_shapes_assemble h with hshape | ⟨part, hpart, h⟩
    · exact Layer.wellFormed_of_shape hshape
    · have hshort : part.length < length := by
        have hpart := Layer.length_lt_of_mem_parts hpart
        have htrim := Text.length_trim_le s
        omega
      exact ih part.length hshort h rfl

theorem wellFormed_of_mem_shapesOfAll {s : Text} (h : f ∈ shapesOfAll (listOfText s)) :
    f.WellFormed := by
  rw [shapesOfAll_eq, listOfText, List.flatMap_map] at h
  obtain ⟨piece, -, h⟩ := List.mem_flatMap.1 h
  exact wellFormed_of_mem_shapes h

end Expr

end Grimoire
