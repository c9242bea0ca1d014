import Grimoire.Proofs.Evaluation
import Grimoire.Resources

/-!
# What the basic computations keep

The computations that read the store, add cells, draw from the random stream, read dates and go
from values to JSON texts and back.
-/

namespace Grimoire

/-! ## Building values -/

/-- A store with more cells, still sound, and something built in it that satisfies `post`. -/
structure Built {α : Type} (D : Discipline) (s : Store) (post : Store → α → Prop)
    (out : α × Store) : Prop where
  grows : s.Extends out.2
  sound : D.sound out.2
  result : post out.2 out.1

namespace Built

variable {α : Type} {D : Discipline} {s t : Store} {post : Store → α → Prop} {out : α × Store}

theorem of_extends (hst : s.Extends t) (h : Built D t post out) : Built D s post out :=
  ⟨hst.trans h.grows, h.sound, h.result⟩

theorem newSequence {items : List Value} (hs : D.sound s) (h : D.ValidAll s items) :
    Built D s D.valid (s.newSequence items) :=
  ⟨Store.extends_newSequence s items, (D.newSequence hs h).1, (D.newSequence hs h).2⟩

theorem newTome {entries : Table Value} (hs : D.sound s) (h : D.ValidTable s entries) :
    Built D s D.valid (s.newTome entries) :=
  ⟨Store.extends_newTome s entries, (D.newTome hs h).1, (D.newTome hs h).2⟩

end Built

namespace Discipline

variable {D : Discipline} {s : Store}

theorem ValidAll.reverse {values : List Value} (h : D.ValidAll s values) :
    D.ValidAll s values.reverse :=
  h.subset fun _ hv => List.mem_reverse.1 hv

/-- A table of valid values. -/
theorem validTable_ofList {entries : List (Text × Value)}
    (h : D.ValidAll s (entries.map Prod.snd)) : D.ValidTable s (.ofList entries) :=
  fun v hv => h v (Table.mem_values_ofList hv)

end Discipline

/-! ## Several values -/

/-- Making a value from each element of a list gathers the values in reverse, in front of some that
were made before. -/
theorem foldl_make {α β τ : Type} (make : α → τ → β × τ) (as : List α) (done : List β) (t : τ) :
    as.foldl (fun (out : List β × τ) a => ((make a out.2).1 :: out.1, (make a out.2).2)) (done, t) =
      ((as.foldl (fun (out : List β × τ) a => ((make a out.2).1 :: out.1, (make a out.2).2))
          ([], t)).1 ++ done,
        (as.foldl (fun (out : List β × τ) a => ((make a out.2).1 :: out.1, (make a out.2).2))
          ([], t)).2) := by
  induction as generalizing done t with
  | nil => rfl
  | cons a rest ih =>
    rw [List.foldl_cons, List.foldl_cons, ih, ih [(make a t).1]]
    simp

/-- Making a value from each element of a list, after some that were made before. Whatever an element
has to satisfy must last while the store grows. -/
theorem Built.foldl {α : Type} {D : Discipline} (make : α → Store → Value × Store)
    (fits : Store → α → Prop) (hlasts : ∀ s t a, s.Extends t → fits s a → fits t a)
    (hmake : ∀ s a, D.sound s → fits s a → Built D s D.valid (make a s)) {s : Store}
    {done : List Value} {as : List α} (hs : D.sound s) (hdone : D.ValidAll s done)
    (has : ∀ a ∈ as, fits s a) :
    Built D s D.ValidAll (as.foldl (fun (out : List Value × Store) a =>
      ((make a out.2).1 :: out.1, (make a out.2).2)) (done, s)) := by
  induction as generalizing s done with
  | nil => exact ⟨.refl s, hs, hdone⟩
  | cons a rest ih =>
    have hnew := hmake s a hs (has a List.mem_cons_self)
    refine (ih hnew.sound (.cons hnew.result (hdone.mono hnew.grows)) ?_).of_extends hnew.grows
    intro b hb
    exact hlasts s _ b hnew.grows (has b (List.mem_cons_of_mem a hb))

namespace Collection

variable {D : Discipline}

theorem built_newSequences {s : Store} {lists : List (List Value)} (hs : D.sound s)
    (hlists : ∀ items ∈ lists, D.ValidAll s items) :
    Built D s D.ValidAll (newSequences s lists) := by
  have h := Built.foldl (fun items s => s.newSequence items) D.ValidAll
    (fun _ _ _ hst hitems => hitems.mono hst) (fun _ _ hs hitems => .newSequence hs hitems) hs
    Discipline.validAll_nil hlists
  exact ⟨h.grows, h.sound, h.result.reverse⟩

/-- The entries of a table as sequences of two. -/
theorem built_pairs {s : Store} {entries : Table Value} (hs : D.sound s)
    (h : D.ValidTable s entries) : Built D s D.ValidAll (pairs s entries) := by
  refine built_newSequences hs fun items hitems => ?_
  obtain ⟨entry, hentry, rfl⟩ := List.mem_map.1 hitems
  have hvalue : D.valid s entry.2 := h entry.2 (List.mem_map_of_mem hentry)
  exact .cons (D.valid_of_isScalar rfl) (.cons hvalue Discipline.validAll_nil)

end Collection

/-! ## Copies -/

namespace Store

variable {D : Discipline}

theorem built_mirrorAll {mirror : Value → Store → Value × Store}
    (hmirror : ∀ s v, D.sound s → D.valid s v → Built D s D.valid (mirror v s))
    {s : Store} {values : List Value} (hs : D.sound s) (hvalues : D.ValidAll s values) :
    Built D s D.ValidAll (mirrorAll mirror values s) := by
  have h := Built.foldl mirror D.valid (fun _ _ _ hst hv => D.valid_of_extends hst hv) hmirror hs
    Discipline.validAll_nil hvalues
  exact ⟨h.grows, h.sound, h.result.reverse⟩

theorem built_mirrorWithin {depth : Nat} {s : Store} {v : Value} (hs : D.sound s)
    (hv : D.valid s v) : Built D s D.valid (mirrorWithin depth v s) := by
  induction depth generalizing s v with
  | zero => cases v <;> exact ⟨.refl s, hs, hv⟩
  | succ depth ih =>
    cases v with
    | sequence cell =>
      have hcopies := built_mirrorAll (fun s v hs hv => ih hs hv) hs
        (Discipline.validAll_items hs hv)
      exact (Built.newSequence hcopies.sound hcopies.result).of_extends hcopies.grows
    | tome cell =>
      have hcopies := built_mirrorAll (fun s v hs hv => ih hs hv) hs
        (Discipline.validTable_entries hs hv)
      refine (Built.newTome hcopies.sound (Discipline.validTable_ofList ?_)).of_extends
        hcopies.grows
      refine hcopies.result.subset fun w hw => ?_
      obtain ⟨pair, hpair, rfl⟩ := List.mem_map.1 hw
      exact (List.of_mem_zip hpair).2
    | _ => exact ⟨.refl s, hs, hv⟩

/-! ## Documents -/

mutual

theorem built_build {s : Store} (hs : D.sound s) :
    ∀ json : Json, Built D s D.valid (build json s)
  | .null | .boolean _ | .number _ | .string _ =>
    ⟨.refl s, hs, D.valid_of_isScalar rfl⟩
  | .array elements => by
    have h := built_buildElements hs elements
    rw [build]
    exact (Built.newSequence h.sound h.result).of_extends h.grows
  | .object members => by
    have h := built_buildMembers hs members
    rw [build]
    exact (Built.newTome h.sound (Discipline.validTable_ofList h.result)).of_extends h.grows

theorem built_buildElements {s : Store} (hs : D.sound s) :
    ∀ elements : List Json, Built D s D.ValidAll (buildElements elements s)
  | [] => ⟨.refl s, hs, Discipline.validAll_nil⟩
  | element :: rest => by
    have hfirst := built_build hs element
    have hrest := built_buildElements hfirst.sound rest
    rw [buildElements]
    exact ⟨hfirst.grows.trans hrest.grows, hrest.sound,
      .cons (D.valid_of_extends hrest.grows hfirst.result) hrest.result⟩

theorem built_buildMembers {s : Store} (hs : D.sound s) :
    ∀ members : List (Text × Json), Built D s (fun s entries => D.ValidAll s (entries.map Prod.snd))
      (buildMembers members s)
  | [] => ⟨.refl s, hs, Discipline.validAll_nil⟩
  | (name, value) :: rest => by
    have hfirst := built_build hs value
    have hrest := built_buildMembers hfirst.sound rest
    rw [buildMembers]
    exact ⟨hfirst.grows.trans hrest.grows, hrest.sound,
      .cons (D.valid_of_extends hrest.grows hfirst.result) hrest.result⟩

end

end Store

/-! ## The basic computations -/

namespace Work

variable {α : Type} {D : Discipline} {r : Resources}

theorem yields_failType {fault : TypeFault} {post : Store → α → Prop} :
    Yields D r (failType fault) post :=
  yields_throw rfl

theorem yields_failRange {fault : RangeFault} {post : Store → α → Prop} :
    Yields D r (failRange fault) post :=
  yields_throw rfl

theorem yields_ofRange {result : Except RangeFault α} : Yields D r (ofRange result) fun _ _ => True := by
  cases result with
  | error fault => exact yields_failRange
  | ok a => exact yields_pure fun _ => True.intro

theorem yields_get : Yields D r (get : Work Resources) fun _ _ => True :=
  fun hs => .ok (.refl r) hs True.intro

/-- What is computed from the resources as they are. -/
theorem yields_get_bind {f : Resources → Work α} {post : Store → α → Prop}
    (h : Yields D r (f r) post) : Yields D r (get >>= f) post := by
  intro hs
  exact h hs

theorem yields_set {r' : Resources} (hr : r.Grows r') (h : D.sound r.store → D.sound r'.store) :
    Yields D r (set r' : Work Unit) fun s _ => s = r'.store :=
  fun hs => .ok hr (h hs) rfl

/-- What is computed from the store as it is. -/
theorem yields_store_bind {f : Store → Work α} {post : Store → α → Prop}
    (h : Yields D r (f r.store) post) : Yields D r (store >>= f) post := by
  intro hs
  exact h hs

theorem yields_build {make : Store → α × Store} {post : Store → α → Prop}
    (h : D.sound r.store → Built D r.store post (make r.store)) :
    Yields D r (build make) post := by
  intro hs
  have hmade := h hs
  exact .ok ⟨hmade.grows, rfl⟩ hmade.sound hmade.result

theorem yields_newSequence {items : List Value} (h : D.ValidAll r.store items) :
    Yields D r (newSequence items) D.valid :=
  yields_build fun hs => .newSequence hs h

theorem yields_newTome {entries : Table Value} (h : D.ValidTable r.store entries) :
    Yields D r (newTome entries) D.valid :=
  yields_build fun hs => .newTome hs h

theorem yields_draw {take : Xorshift → α × Xorshift} :
    Yields D r (draw take) fun _ a => ∃ x, a = (take x).1 :=
  fun hs => .ok ⟨.refl _, rfl⟩ hs ⟨r.random, rfl⟩

theorem yields_reseed {seed : UInt32} : Yields D r (reseed seed) fun _ _ => True :=
  fun hs => .ok ⟨.refl _, rfl⟩ hs True.intro

theorem yields_display {v : Value} : Yields D r (display v) fun _ _ => True :=
  yields_store_bind (yields_pure fun _ => True.intro)

theorem yields_toNumber {v : Value} : Yields D r (toNumber v) fun _ _ => True :=
  yields_store_bind (yields_pure fun _ => True.intro)

theorem yields_toInt {v : Value} : Yields D r (toInt v) fun _ _ => True :=
  yields_store_bind (yields_pure fun _ => True.intro)

/-- The elements of a valid value are valid. -/
theorem yields_elements {user : Text} {v : Value} (hv : D.valid r.store v) :
    Yields D r (elements user v) D.ValidAll := by
  cases v with
  | sequence cell =>
    exact yields_store_bind (yields_pure fun hs => Discipline.validAll_items hs hv)
  | _ => exact yields_failType

/-! ### Dates -/

theorem yields_toTimestamp {v : Value} : Yields D r (toTimestamp v) fun _ _ => True := by
  cases v with
  | timestamp t => exact yields_pure fun _ => True.intro
  | number x =>
    refine yields_ite (fun _ => yields_failRange) fun _ => ?_
    split
    · exact yields_pure fun _ => True.intro
    · exact yields_failRange
  | string text =>
    rw [toTimestamp]
    split
    · exact yields_pure fun _ => True.intro
    · exact yields_throw rfl
  | _ => exact yields_failType

theorem yields_shift {t : Timestamp} {amount : Number} {unit : Int} :
    Yields D r (shift t amount unit) fun _ _ => True := by
  refine yields_ite (fun _ => yields_failRange) fun _ => ?_
  split
  · exact yields_pure fun _ => True.intro
  · exact yields_failRange

theorem yields_timePattern {pattern : Text} : Yields D r (timePattern pattern) fun _ _ => True := by
  refine yields_get_bind ?_
  split
  · exact yields_pure fun _ => True.intro
  · refine Yields.bind (yields_set ⟨.refl r.store, rfl⟩ id) fun _ _ _ _ _ => ?_
    exact yields_pure fun _ => True.intro

theorem yields_parseTime {text pattern : Text} :
    Yields D r (parseTime text pattern) fun _ _ => True := by
  refine yields_timePattern.bind fun compiled r' _ _ _ => ?_
  split
  · exact yields_pure fun _ => True.intro
  · exact yields_throw rfl

/-! ### JSON -/

theorem yields_encode {v : Value} : Yields D r (encode v) fun _ _ => True := by
  refine yields_store_bind ?_
  split
  · exact yields_pure fun _ => True.intro
  · exact yields_failType

theorem yields_decode {text : Text} : Yields D r (decode text) D.valid := by
  refine yields_get_bind ?_
  intro hs
  cases hread : Json.read? text with
  | none =>
    have hdecode : r.store.decode text = .error .invalidJson := by rw [Store.decode, hread]
    rw [hdecode]
    exact yields_throw rfl hs
  | some json =>
    have hdecode : r.store.decode text = .ok (Store.build json r.store) := by
      rw [Store.decode, hread]
    have hbuilt := Store.built_build hs json
    rw [hdecode]
    have hset : r.Grows { r with store := (Store.build json r.store).2 } := ⟨hbuilt.grows, rfl⟩
    refine (yields_set hset fun _ => hbuilt.sound).bind (fun _ r' _ _ hr' => ?_) hs
    refine yields_pure fun _ => ?_
    rw [hr']
    exact hbuilt.result

end Work

end Grimoire
