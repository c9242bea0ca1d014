import Grimoire.Proofs.Mirrors
import Grimoire.Proofs.ReadBack
import Grimoire.Proofs.Shuffles
import Mathlib.Data.List.Sort

/-!
# Sorted arrays

Values are sorted by three keys: whether they are numbers, the place of a number among all doubles,
and the display text of whatever is no number. So the order is a total preorder, and the sort that
follows it or its reverse is stable and changes nothing that is sorted. A statement sorts an array
where it is; what the elements are displayed as does not depend on the array, so it is sorted still
when it is sorted again.
-/

namespace Grimoire

open Relation Std

/-- Texts are compared by their code points. -/
theorem Text.compare_eq (a b : Text) : Text.compare a b = compareOn (List.map Char.toNat) a b := by
  induction a generalizing b with
  | nil => cases b <;> rfl
  | cons c a ih =>
    cases b with
    | nil => rfl
    | cons d b =>
      rw [Text.compare, ih]
      exact List.compareLex_cons_cons.symm

namespace Collection

variable {s t : Store} {descending : Bool} {items : List Value}

/-! ## The order -/

/-- Numbers come before other values. -/
def rank : Value → Nat
  | .number _ => 0
  | _ => 1

/-- The place of a number among all doubles. -/
def numberKey : Value → Int
  | .number x => x.orderKey
  | _ => 0

/-- The code points of what a value is displayed as, if it is no number. -/
def textKey (s : Store) : Value → List Nat
  | .number _ => []
  | v => (s.display v).map Char.toNat

theorem ascending_eq (s : Store) : ascending s =
    compareLex (compareOn rank) (compareLex (compareOn numberKey) (compareOn (textKey s))) := by
  funext a b
  cases a with
  | number x =>
    cases b with
    | number y => exact (Ordering.then_eq (o := compare x.orderKey y.orderKey)).symm
    | _ => rfl
  | _ =>
    cases b with
    | number y => rfl
    | _ => exact Text.compare_eq _ _

instance (s : Store) : TransCmp (ascending s) := by
  rw [ascending_eq]
  infer_instance

/-- The order of sorting in a direction. -/
def order (s : Store) (descending : Bool) (a b : Value) : Ordering :=
  if descending then ascending s b a else ascending s a b

instance (s : Store) (descending : Bool) : TransCmp (order s descending) := by
  cases descending with
  | false => exact inferInstanceAs (TransCmp (ascending s))
  | true => exact inferInstanceAs (TransCmp fun a b => ascending s b a)

/-! ## The sort -/

theorem ne_gt_trans (a b c : Value) (h : (order s descending a b != .gt) = true)
    (h' : (order s descending b c != .gt) = true) : (order s descending a c != .gt) = true := by
  rw [bne_iff_ne, Ne, Ordering.ne_gt_iff_isLE] at h h' ⊢
  exact TransCmp.isLE_trans h h'

theorem ne_gt_total (a b : Value) :
    ((order s descending a b != .gt) || (order s descending b a != .gt)) = true := by
  have hswap : order s descending b a = (order s descending a b).swap := OrientedCmp.eq_swap
  rw [hswap]
  cases order s descending a b <;> rfl

theorem perm_sort (s : Store) (descending : Bool) (items : List Value) :
    (sort s descending items).Perm items :=
  List.mergeSort_perm items _

theorem pairwise_sort (s : Store) (descending : Bool) (items : List Value) :
    (sort s descending items).Pairwise fun a b => order s descending a b ≠ .gt :=
  (List.pairwise_mergeSort ne_gt_trans ne_gt_total items).imp bne_iff_ne.1

/-- Sorting changes nothing that is sorted. -/
theorem sort_of_pairwise (h : items.Pairwise fun a b => order s descending a b ≠ .gt) :
    sort s descending items = items :=
  List.mergeSort_of_pairwise (h.imp bne_iff_ne.2)

/-- Values that are equal to one another in the order keep their places among themselves. -/
theorem filter_sort (s : Store) (descending : Bool) (items : List Value) (v : Value) :
    (sort s descending items).filter (ascending s v · = .eq) =
      items.filter (ascending s v · = .eq) := by
  -- the equal values are in order already, so they are found in the sorted list as they are
  have hequal : (items.filter (ascending s v · = .eq)).Pairwise
      fun a b => (order s descending a b != .gt) = true := by
    refine List.pairwise_of_forall_mem_list fun a ha b hb => ?_
    have hva : ascending s v a = .eq := by simpa using (List.mem_filter.1 ha).2
    have hvb : ascending s v b = .eq := by simpa using (List.mem_filter.1 hb).2
    have hab : ascending s a b = .eq := TransCmp.eq_trans (OrientedCmp.eq_comm.1 hva) hvb
    have hba : ascending s b a = .eq := OrientedCmp.eq_comm.1 hab
    cases descending with
    | false => simp [order, hab]
    | true => simp [order, hba]
  have hsub : (items.filter (ascending s v · = .eq)).Sublist (sort s descending items) :=
    List.sublist_mergeSort ne_gt_trans ne_gt_total hequal List.filter_sublist
  have hfiltered := hsub.filter (ascending s v · = .eq)
  rw [List.filter_filter] at hfiltered
  simp only [Bool.and_self] at hfiltered
  have hlength := ((perm_sort s descending items).filter (ascending s v · = .eq)).length_eq
  exact (hfiltered.eq_of_length hlength.symm).symm

theorem order_congr {a b : Value} (ha : t.display a = s.display a)
    (hb : t.display b = s.display b) : order t descending a b = order s descending a b := by
  have hascending : ∀ a b : Value, t.display a = s.display a → t.display b = s.display b →
      ascending t a b = ascending s a b := by
    intro a b ha hb
    cases a <;> cases b <;> simp only [ascending, ha, hb]
  rw [order, order, hascending a b ha hb, hascending b a hb ha]

/-- What is sorted stays so where the elements are displayed as they were. -/
theorem sort_sort (h : ∀ v ∈ items, t.display v = s.display v) :
    sort t descending (sort s descending items) = sort s descending items := by
  apply sort_of_pairwise
  refine (pairwise_sort s descending items).imp_of_mem fun {a b} ha hb hab => ?_
  rw [(perm_sort s descending items).mem_iff] at ha hb
  rwa [order_congr (h a ha) (h b hb)]

end Collection

/-- Whether a statement that sorts is to sort in descending order. -/
def Groups.descends (g : Groups) : Bool :=
  (g.text 2).map Char.toLower = "descending".toList

/-- The elements of an array are displayed alike when the array has other elements. -/
theorem Store.Sound.display_of_setItems {s t : Store} (hs : s.Sound) {cell : Nat} {v : Value}
    (hv : v ∈ s.items cell) {items : List Value} (ht : t.Sound)
    (hextends : (s.setItems cell items).Extends t) : t.display v = s.display v := by
  have hstep : s.Encloses (.sequence cell) v := hv
  have hhas : s.Has v := hs.closed _ v hstep
  rw [display_eq, display_eq, hs.datum_of_sameAt ht hhas (hextends.has (has_setItems.2 hhas))]
  intro c hc
  -- an element does not reach the array, for the array would be inside itself
  have hne : c ≠ .sequence cell := by
    rintro rfl
    exact hs.acyclic _ (TransGen.head' hstep hc)
  exact (sameAt_setItems hne).trans
    (hextends.sameAt (has_setItems.2 (hs.has_of_reflTransGen hhas hc)))

namespace Run

variable {σ : Type} {m m₁ : Machine σ} {line : Text} {g : Groups} {cell : Nat}

theorem run_sorted (hopen : m.scope.guards (g.text 1) = false)
    (hvalue : (evaluate (g.value 1)).run.run m = (.ok (.sequence cell), m₁)) :
    (evaluate ((Form.deed .sort).effects g)).run.run m =
      (.ok [.setItems cell (Collection.sort m₁.store g.descends (m₁.store.items cell))], m₁) := by
  show (evaluate (Deed.editItems "Sort" g fun items => do
    return Collection.sort (← Work.store) g.descends items)).run.run m = _
  apply run_editItems hopen hvalue
  rfl

variable [Host σ]

/-- A statement sorts an array where it is. -/
theorem run_statement_sort (hform : Form.find? line = some (.deed .sort, g))
    (hopen : m.scope.guards (g.text 1) = false)
    (hvalue : (evaluate (g.value 1)).run.run m = (.ok (.sequence cell), m₁)) :
    (statement line).run.run m = (.ok (), m₁.withStore (m₁.store.setItems cell
      (Collection.sort m₁.store g.descends (m₁.store.items cell)))) := by
  rw [run_statement_of_effect (Form.isIdle_of_find? (by decide) (by decide) hform) hform
    (run_sorted hopen hvalue)]
  rfl

/-- An array that has been sorted is sorted again without effect. -/
theorem run_statement_sort_again {s : Store} (hm : m.store.Sound) {descending : Bool}
    (hs : s = m.store.setItems cell
      (Collection.sort m.store descending (m.store.items cell)))
    (hgrounded : (m.withStore s).Grounded) (hcell : m.store.Has (.sequence cell))
    (hform : Form.find? line = some (.deed .sort, g)) (hdirection : g.descends = descending)
    (hopen : m.scope.guards (g.text 1) = false)
    (hvalue : (evaluate (g.value 1)).run.run (m.withStore s) = (.ok (.sequence cell), m₁)) :
    (statement line).run.run (m.withStore s) = (.ok (), m₁) := by
  obtain ⟨hgrounded₁, -, hextends⟩ := grounded_of_run_value hgrounded hvalue
  have hextends' : s.Extends m₁.store := hextends
  have hitems : m₁.store.items cell =
      Collection.sort m.store descending (m.store.items cell) := by
    rw [hextends'.items (hs ▸ Store.has_setItems.2 hcell), hs,
      Store.items_setItems_of_perm (Collection.perm_sort _ _ _)]
  have hdisplay : ∀ v ∈ m.store.items cell, m₁.store.display v = m.store.display v :=
    fun v hv => hm.display_of_setItems hv hgrounded₁.sound (hs ▸ hextends')
  rw [run_statement_sort (m := m.withStore s) hform hopen hvalue, hitems, hdirection,
    Collection.sort_sort hdisplay, ← hitems, Store.setItems_items]
  rfl

/-- A machine with an array in which two elements are displayed alike. -/
def mixedArray : Machine Transcript :=
  .afterCalls {} default {} [.execute "xs is [\"true\", 2, true, 1] ok".toList]

/-- A line that sorts it downward. -/
def sortingDown : Text := "Sort xs descending ok".toList

/-- The places of the operand and of the direction in that line. -/
def sortingGroups : Groups :=
  ⟨sortingDown, [(2, ⟨8, 18⟩), (1, ⟨5, 7⟩)]⟩

/-- The machine after that line. -/
def sortedDown : Machine Transcript :=
  ((statement sortingDown).run.run mixedArray).2

end Run

end Grimoire
