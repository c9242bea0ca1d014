import Grimoire.Proofs.ReadBack
import Grimoire.Proofs.Shuffles

/-!
# Bundled arrays

A list is cut into pieces of a size, from the front, and what is left is the last piece. Each piece
becomes the contents of a fresh sequence. To splice these sequences undoes it, and since no more is
spliced than one level, the elements may be sequences themselves.
-/

namespace Grimoire

/-! ## Pieces -/

section Pieces

variable {α : Type} {size : Nat} {xs piece : List α} {pieces : List (List α)}

/-- A list is cut into pieces of a size, and a last one that may be shorter. -/
inductive Cuts (size : Nat) : List α → List (List α) → Prop
  | nil : Cuts size [] []
  | last {piece : List α} (hne : piece ≠ []) (hsize : piece.length ≤ size) :
      Cuts size piece [piece]
  | more {piece rest : List α} {pieces : List (List α)} (hsize : piece.length = size)
      (hne : rest ≠ []) (h : Cuts size rest pieces) : Cuts size (piece ++ rest) (piece :: pieces)

namespace Cuts

theorem flatten (h : Cuts size xs pieces) : pieces.flatten = xs := by
  induction h with
  | nil => rfl
  | last hne hsize => exact List.append_nil _
  | more hsize hne h ih => rw [List.flatten_cons, ih]

theorem eq_nil_iff (h : Cuts size xs pieces) : pieces = [] ↔ xs = [] := by
  cases h with
  | nil => simp
  | last hne hsize => simp [hne]
  | more hsize hne h => simp [hne]

/-- All pieces but the last have the size. -/
theorem length_of_mem_dropLast (h : Cuts size xs pieces) (hpiece : piece ∈ pieces.dropLast) :
    piece.length = size := by
  induction h with
  | nil => cases hpiece
  | last hne hsize => cases hpiece
  | more hsize hne h ih =>
    rw [List.dropLast_cons_of_ne_nil (mt h.eq_nil_iff.1 hne), List.mem_cons] at hpiece
    rcases hpiece with rfl | hpiece
    · exact hsize
    · exact ih hpiece

/-- The last piece has an element, and no more than the size. -/
theorem length_of_mem_getLast? (h : Cuts size xs pieces) (hpiece : piece ∈ pieces.getLast?) :
    1 ≤ piece.length ∧ piece.length ≤ size := by
  induction h with
  | nil => cases hpiece
  | last hne hsize =>
    cases hpiece
    exact ⟨List.length_pos_iff.2 hne, hsize⟩
  | more hsize hne h ih =>
    rw [List.getLast?_cons_of_ne_nil (mt h.eq_nil_iff.1 hne)] at hpiece
    exact ih hpiece

end Cuts

namespace Collection

/-- The pieces already cut stay in front of the others. -/
theorem chunksFrom_append (size : Nat) (front done : List (List α)) (xs : List α) :
    chunksFrom size (front ++ done) xs = done.reverse ++ chunksFrom size front xs := by
  fun_induction chunksFrom size front xs with
  | case1 front xs hxs => rw [chunksFrom, if_pos hxs, List.reverse_append]
  | case2 front xs hxs ih =>
    rw [chunksFrom, if_neg hxs]
    exact ih

theorem cuts_chunksFrom (size : Nat) (xs : List α) :
    Cuts (size + 1) xs (chunksFrom size [] xs) := by
  induction hlength : xs.length using Nat.strongRecOn generalizing xs with
  | ind length ih =>
    cases xs with
    | nil =>
      rw [chunksFrom]
      exact .nil
    | cons x rest =>
      have hcut := chunksFrom_append size [] [(x :: rest).take (size + 1)]
        ((x :: rest).drop (size + 1))
      rw [chunksFrom, if_neg (by simp)]
      rw [List.nil_append] at hcut
      rw [hcut]
      by_cases hle : (x :: rest).length ≤ size + 1
      · rw [List.take_of_length_le hle, List.drop_of_length_le hle, chunksFrom]
        exact .last (by simp) hle
      · have hrest := ih ((x :: rest).drop (size + 1)).length (by simp at hlength ⊢; omega) _ rfl
        have hfull : ((x :: rest).take (size + 1)).length = size + 1 := by
          rw [List.length_take]
          omega
        have hleft : (x :: rest).drop (size + 1) ≠ [] := by
          rw [ne_eq, List.drop_eq_nil_iff]
          exact hle
        have hmore := Cuts.more hfull hleft hrest
        rwa [List.take_append_drop] at hmore

theorem cuts_chunks (n : Int) (xs : List α) : Cuts (max n 1).toNat xs (chunks n xs) := by
  have hcuts := cuts_chunksFrom ((max n 1).toNat - 1) xs
  rwa [Nat.sub_add_cancel (by omega)] at hcuts

end Collection

end Pieces

/-! ## Fresh sequences -/

/-- Sequences of given contents have been added to a store, one for each value of a list. -/
structure Store.Adds (s : Store) (lists : List (List Value)) (values : List Value) (t : Store) :
    Prop where
  grows : s.Extends t
  fresh : ∀ v ∈ values, (∃ cell, v = .sequence cell) ∧ ¬ s.Has v ∧ t.Has v
  distinct : values.Nodup
  contents : values.map t.contents = lists

namespace Collection

/-- The sequences come in the order of the lists. -/
theorem newSequences_cons (s : Store) (items : List Value) (rest : List (List Value)) :
    newSequences s (items :: rest) =
      ((s.newSequence items).1 :: (newSequences (s.newSequence items).2 rest).1,
        (newSequences (s.newSequence items).2 rest).2) := by
  have hfold := foldl_make (fun items s => Store.newSequence s items) rest
    [(s.newSequence items).1] (s.newSequence items).2
  have hall : newSequences s (items :: rest) = _ :=
    congrArg (fun out : List Value × Store => (out.1.reverse, out.2)) hfold
  rw [hall, List.reverse_append]
  rfl

end Collection

namespace Store

variable {s t u : Store} {lists : List (List Value)} {values xs bundle : List Value} {n : Int}

theorem adds_newSequences (s : Store) (lists : List (List Value)) :
    s.Adds lists (Collection.newSequences s lists).1 (Collection.newSequences s lists).2 := by
  induction lists generalizing s with
  | nil =>
    exact ⟨.refl s, fun v hv => absurd hv List.not_mem_nil, List.nodup_nil, rfl⟩
  | cons items rest ih =>
    have hextends := extends_newSequence s items
    have hrest := ih (s.newSequence items).2
    rw [Collection.newSequences_cons]
    constructor
    · exact hextends.trans hrest.grows
    · rw [List.forall_mem_cons]
      refine ⟨⟨⟨_, rfl⟩, not_has_newSequence, hrest.grows.has has_newSequence⟩, ?_⟩
      intro v hv
      obtain ⟨hsequence, hnew, hhas⟩ := hrest.fresh v hv
      exact ⟨hsequence, fun hold => hnew (hextends.has hold), hhas⟩
    · rw [List.nodup_cons]
      exact ⟨fun hmem => (hrest.fresh _ hmem).2.1 has_newSequence, hrest.distinct⟩
    · rw [List.map_cons, hrest.contents, hrest.grows.contents has_newSequence,
        contents_newSequence]

/-- To splice added sequences, also later on, gives their contents one after the other. -/
theorem Adds.flattenOnce (h : s.Adds lists values t) (hu : t.Extends u) :
    Collection.flattenOnce u values = lists.flatten := by
  rw [← h.contents, ← List.flatMap_def, Collection.flattenOnce]
  refine List.flatMap_congr fun v hv => ?_
  obtain ⟨⟨cell, rfl⟩, -, hhas⟩ := h.fresh v hv
  exact hu.contents hhas

/-! ## Bundles -/

/-- A list is bundled into fresh sequences of a size. -/
structure Bundles (s : Store) (xs : List Value) (size : Nat) (bundle : List Value) (t : Store) :
    Prop where
  grows : s.Extends t
  fresh : ∀ v ∈ bundle, (∃ cell, v = .sequence cell) ∧ ¬ s.Has v ∧ t.Has v
  distinct : bundle.Nodup
  full : ∀ v ∈ bundle.dropLast, (t.contents v).length = size
  last : ∀ v ∈ bundle.getLast?, 1 ≤ (t.contents v).length ∧ (t.contents v).length ≤ size
  eq_nil_iff : bundle = [] ↔ xs = []
  /-- The list comes of splicing the sequences, also later on. -/
  flattenOnce : ∀ u, t.Extends u → Collection.flattenOnce u bundle = xs

theorem Adds.bundles {size : Nat} (h : s.Adds lists bundle t) (hcuts : Cuts size xs lists) :
    s.Bundles xs size bundle t where
  grows := h.grows
  fresh := h.fresh
  distinct := h.distinct
  full v hv := by
    apply hcuts.length_of_mem_dropLast
    rw [← h.contents, ← List.map_dropLast]
    exact List.mem_map_of_mem hv
  last v hv := by
    apply hcuts.length_of_mem_getLast?
    rw [← h.contents, List.getLast?_map]
    exact Option.mem_map_of_mem t.contents hv
  eq_nil_iff := by rw [← hcuts.eq_nil_iff, ← h.contents, List.map_eq_nil_iff]
  flattenOnce u hu := (h.flattenOnce hu).trans hcuts.flatten

theorem bundles_chunks (s : Store) (xs : List Value) (n : Int) :
    s.Bundles xs (max n 1).toNat (Collection.newSequences s (Collection.chunks n xs)).1
      (Collection.newSequences s (Collection.chunks n xs)).2 :=
  (adds_newSequences s _).bundles (Collection.cuts_chunks n xs)

end Store

/-! ## Statements and functions -/

namespace Run

variable {σ : Type} {m m₁ m₂ : Machine σ} {line : Text} {g : Groups} {cell : Nat} {v : Value}

theorem run_bundled (hitems : (evaluate (g.value 1)).run.run m = (.ok (.sequence cell), m₁))
    (hsize : (evaluate (g.value 2)).run.run m₁ = (.ok v, m₂)) :
    (evaluate (Computation.value .bundle g)).run.run m =
      (newSequence (Collection.newSequences m₂.store
          (Collection.chunks (m₂.store.toInt v) (m₁.store.items cell))).1).run.run
        (m₂.withStore (Collection.newSequences m₂.store
          (Collection.chunks (m₂.store.toInt v) (m₁.store.items cell))).2) := by
  rw [Computation.value, Computation.bundled, run_items_bind hitems, run_integer_bind hsize]
  rfl

theorem run_unfolded (hitems : (evaluate (g.value 1)).run.run m = (.ok (.sequence cell), m₁)) :
    (evaluate (Computation.value .unfold g)).run.run m =
      (newSequence (Collection.flattenOnce m₁.store (m₁.store.items cell))).run.run m₁ := by
  rw [Computation.value, Computation.onItems, run_items_bind hitems]
  rfl

variable [Host σ]

/-- A statement that bundles binds a sequence of the bundle to its name. -/
theorem run_statement_bundle (hform : Form.find? line = some (.computation .bundle, g))
    (hitems : (evaluate (g.value 1)).run.run m = (.ok (.sequence cell), m₁))
    (hsize : (evaluate (g.value 2)).run.run m₁ = (.ok v, m₂)) :
    ∃ bundle t made m',
      m₂.store.Bundles (m₁.store.items cell) (max (m₂.store.toInt v) 1).toNat bundle t ∧
      Deals (m₂.withStore t).resources bundle m₂.stream (.ok made, m'.resources) ∧
      m'.scope = m.scope ∧ (statement line).run.run m = (bindName (g.text 3) made).run.run m' := by
  have hbinds := binds_of_computation (Form.isIdle_of_find? (by decide) (by decide) hform) hform
    (run_bundled hitems hsize)
  exact ⟨_, _, _, _, m₂.store.bundles_chunks _ _, deals_newSequence (Machine.resources _) _ _,
    hbinds.succeeds _ _ rfl⟩

/-- A statement that unfolds binds a sequence of what is spliced to its name. -/
theorem run_statement_unfold (hform : Form.find? line = some (.computation .unfold, g))
    (hitems : (evaluate (g.value 1)).run.run m = (.ok (.sequence cell), m₁)) :
    ∃ made m',
      Deals m₁.resources (Collection.flattenOnce m₁.store (m₁.store.items cell)) m₁.stream
        (.ok made, m'.resources) ∧
      m'.scope = m.scope ∧ (statement line).run.run m = (bindName (g.text 2) made).run.run m' := by
  have hbinds := binds_of_computation (Form.isIdle_of_find? (by decide) (by decide) hform) hform
    (run_unfolded hitems)
  exact ⟨_, _, deals_newSequence m₁.resources _ _, hbinds.succeeds _ _ rfl⟩

/-- A list is bundled by any integer: into sequences that did not exist, of as many elements as it
says but one at least, the last with at least one element and no more than the others, and none for
the empty list. Splicing them gives the list, whatever its elements are, also when other containers
have been made since. A statement and a library function make a sequence of such a bundle, and a
statement and a library function make one of the list of it again. -/
theorem unfold_undoes_bundle (xs : List Value) (n : Int) :
    (∀ s : Store, s.Bundles xs (max n 1).toNat
      (Collection.newSequences s (Collection.chunks n xs)).1
      (Collection.newSequences s (Collection.chunks n xs)).2) ∧
    (∀ (m m₁ m₂ : Machine σ) line g cell v, Form.find? line = some (.computation .bundle, g) →
      (evaluate (g.value 1)).run.run m = (.ok (.sequence cell), m₁) →
      (evaluate (g.value 2)).run.run m₁ = (.ok v, m₂) →
      m₁.store.items cell = xs → m₂.store.toInt v = n →
      ∃ bundle t made m', m₂.store.Bundles xs (max n 1).toNat bundle t ∧
        Deals (m₂.withStore t).resources bundle m₂.stream (.ok made, m'.resources) ∧
        m'.scope = m.scope ∧
        (statement line).run.run m = (bindName (g.text 3) made).run.run m') ∧
    (∀ (r : Resources) cell v, r.store.items cell = xs → r.store.toInt v = n →
      ∃ bundle t, r.store.Bundles xs (max n 1).toNat bundle t ∧
        Deals { r with store := t } bundle r.random
          ((Library.array.call "chunk".toList [.sequence cell, v]).run.run r)) ∧
    ∀ (s t : Store) bundle, s.Bundles xs (max n 1).toNat bundle t →
      (∀ (m m₁ : Machine σ) line g cell, Form.find? line = some (.computation .unfold, g) →
        (evaluate (g.value 1)).run.run m = (.ok (.sequence cell), m₁) →
        m₁.store.items cell = bundle → t.Extends m₁.store →
        ∃ made m', Deals m₁.resources xs m₁.stream (.ok made, m'.resources) ∧
          m'.scope = m.scope ∧
          (statement line).run.run m = (bindName (g.text 2) made).run.run m') ∧
      (∀ (r : Resources) cell, r.store.items cell = bundle → t.Extends r.store →
        Deals r xs r.random
          ((Library.array.call "flatten".toList [.sequence cell]).run.run r)) := by
  refine ⟨fun s => s.bundles_chunks xs n, ?_, ?_, ?_⟩
  · rintro m m₁ m₂ line g cell v hform hitems hsize rfl rfl
    exact run_statement_bundle hform hitems hsize
  · rintro r cell v rfl rfl
    exact ⟨_, _, r.store.bundles_chunks _ _, deals_newSequence _ _ _⟩
  · intro s t bundle hbundle
    constructor
    · intro m m₁ line g cell hform hitems hcell hlater
      obtain ⟨made, m', hdeals, hrun⟩ := run_statement_unfold hform hitems
      rw [hcell, hbundle.flattenOnce _ hlater] at hdeals
      exact ⟨made, m', hdeals, hrun⟩
    · intro r cell hcell hlater
      have hlist : Collection.flattenOnce r.store (r.store.items cell) = xs := by
        rw [hcell, hbundle.flattenOnce _ hlater]
      rw [← hlist]
      exact deals_newSequence r _ _

/-- A machine with an array that has an array as an element. -/
def nestedArray : Machine Transcript :=
  .afterCalls {} default {} [.execute "xs is [1, [2, 3], 4] ok".toList]

/-- A line that bundles it. -/
def bundling : Text := "Bundle xs by 2 into ys ok".toList

/-- The places of the operands in that line. -/
def bundlingGroups : Groups :=
  ⟨bundling, [(3, ⟨20, 22⟩), (2, ⟨13, 14⟩), (1, ⟨7, 9⟩)]⟩

/-- The machine after that line. -/
def bundledArray : Machine Transcript :=
  ((statement bundling).run.run nestedArray).2

/-- A line that unfolds the bundle. -/
def unfolding : Text := "Unfold ys one level into zs ok".toList

/-- The places of the operands in that line. -/
def unfoldingGroups : Groups :=
  ⟨unfolding, [(2, ⟨25, 27⟩), (1, ⟨7, 9⟩)]⟩

theorem unfold_undoes_bundle_nestedArray :
    ∃ bundle t,
      nestedArray.store.Bundles [.number 1, .sequence 0, .number 4] 2 bundle t ∧
      bundledArray.store.items 4 = bundle ∧
      ((statement unfolding).run.run bundledArray).2.store.items 5 =
        [.number 1, .sequence 0, .number 4] := by
  have hfirst : (evaluate (bundlingGroups.value 1)).run.run nestedArray =
      (.ok (.sequence 1), nestedArray) :=
    run_value_of_bound (by decide +kernel) (by decide +kernel)
  have hsize : (evaluate (bundlingGroups.value 2)).run.run nestedArray =
      (.ok (.number 2), nestedArray) := by
    rw [Groups.value, show bundlingGroups.text 2 = "2".toList by decide +kernel,
      run_value_of_isNumeral (by decide) (by decide)]
    exact Prod.ext (by decide +kernel) rfl
  have hoperand : (evaluate (unfoldingGroups.value 1)).run.run bundledArray =
      (.ok (.sequence 4), bundledArray) :=
    run_value_of_bound (by decide +kernel) (by decide +kernel)
  obtain ⟨-, hbundle, -, hunfold⟩ :=
    unfold_undoes_bundle (σ := Transcript) [.number 1, .sequence 0, .number 4] 2
  obtain ⟨bundle, t, made, m', hbundles, hdeals, hscope, hrun⟩ := hbundle nestedArray nestedArray
    nestedArray bundling bundlingGroups 1 (.number 2) (by decide +kernel) hfirst hsize
    (by decide +kernel) (by decide +kernel)
  have hname : bundlingGroups.text 3 = "ys".toList := by decide +kernel
  have hopen : m'.scope.isSealed "ys".toList = false := by
    rw [hscope]
    decide +kernel
  rw [hname, run_bindName_of_open hopen] at hrun
  have hleft : bundledArray = _ := congrArg Prod.snd hrun
  have hstore : bundledArray.store = m'.store := by rw [hleft]; rfl
  -- the bundle is what the name is bound to
  have hmade : some made = some (.sequence 4) := by
    have hget : bundledArray.scope.globals.get? "ys".toList = some made := by
      rw [hleft]
      exact (Table.get?_insert _ _ _ _).trans (if_pos rfl)
    rw [← hget]
    decide +kernel
  have hcell : t.sequences.size = 4 :=
    Value.sequence.inj ((Except.ok.inj hdeals.value).symm.trans (Option.some.inj hmade))
  have hitems : bundledArray.store.items 4 = bundle := by
    rw [hstore, ← hcell]
    exact hdeals.items
  have hlater : t.Extends bundledArray.store := by
    rw [hstore]
    exact hdeals.untouched
  obtain ⟨again, m'', hagain, hscope', hrun'⟩ := (hunfold _ t bundle hbundles).1 bundledArray
    bundledArray unfolding unfoldingGroups 4 (by decide +kernel) hoperand hitems hlater
  refine ⟨bundle, t, hbundles, hitems, ?_⟩
  have hsize' : bundledArray.resources.store.sequences.size = 5 := by decide +kernel
  have hopen' : m''.scope.isSealed (unfoldingGroups.text 2) = false := by
    rw [hscope']
    decide +kernel
  rw [hrun', run_bindName_of_open hopen', ← hsize']
  exact hagain.items

end Run

end Grimoire
