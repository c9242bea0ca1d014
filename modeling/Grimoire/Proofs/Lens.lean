import Grimoire.Proofs.Guards
import Grimoire.Proofs.Trails

/-!
# Setting a path and reading paths

A path is read by lookups: of its root among the names, and of each key in the value before it. To
set a path replaces what one lookup finds that could be made before; all else that is set is in
fresh tomes. What is set is read back, for the tomes on the way cannot be inside the last of them.
Every path that is read without the one lookup reads as before, through whatever names it comes to
the tomes.
-/

namespace Grimoire

open Relation

/-- What is looked up when a path is read. -/
inductive Lookup where
  | name (name : Text)
  | entry (v : Value) (key : Text)
  deriving DecidableEq

namespace Store

variable {s t : Store} {v : Value} {cell : Nat}

/-! ## Lookups of keys -/

/-- The lookups by which keys lead on from a value. -/
def lookups (s : Store) (v : Value) : List Text → List Lookup
  | [] => []
  | key :: rest => .entry v key :: s.lookups (s.member v key) rest

theorem member_of_sameAt (h : s.SameAt t v) (key : Text) : t.member v key = s.member v key := by
  cases v with
  | sequence cell =>
    have hitems : t.items cell = s.items cell := h
    rw [member, member, hitems]
  | tome cell =>
    have hentries : t.entries cell = s.entries cell := h
    rw [member, member, hentries]
  | _ => rfl

/-- Keys lead to the same value where they are looked up with the same results. -/
theorem foldl_member_congr {keys : List Text}
    (h : ∀ w key, Lookup.entry w key ∈ s.lookups v keys → t.member w key = s.member w key) :
    keys.foldl t.member v = keys.foldl s.member v := by
  induction keys generalizing v with
  | nil => rw [List.foldl_nil, List.foldl_nil]
  | cons key rest ih =>
    have hfirst : t.member v key = s.member v key := h v key List.mem_cons_self
    rw [List.foldl_cons, List.foldl_cons, hfirst]
    exact ih fun w key' hmem => h w key' (List.mem_cons_of_mem _ hmem)

theorem Sound.has_member (hs : s.Sound) (v : Value) (key : Text) : s.Has (s.member v key) := by
  cases hc : (s.member v key).isContainer with
  | false => exact has_of_not_isContainer hc
  | true => exact hs.closed v _ (encloses_member hc)

/-- Keys are looked up in what exists. -/
theorem Sound.has_of_mem_lookups (hs : s.Sound) (hv : s.Has v) {keys : List Text} {w : Value}
    {key : Text} (h : Lookup.entry w key ∈ s.lookups v keys) : s.Has w := by
  induction keys generalizing v with
  | nil => cases h
  | cons first rest ih =>
    rcases List.mem_cons.1 h with hsame | hrest
    · cases hsame
      exact hv
    · exact ih (hs.has_member v first) hrest

/-- Added cells make no difference to lookups. -/
theorem Extends.lookups (h : s.Extends t) (hs : s.Sound) (hv : s.Has v) (keys : List Text) :
    t.lookups v keys = s.lookups v keys := by
  induction keys generalizing v with
  | nil => rfl
  | cons key rest ih =>
    have hmember : t.member v key = s.member v key := member_of_sameAt (h.sameAt hv) key
    rw [Store.lookups, Store.lookups, hmember, ih (hs.has_member v key)]

theorem Extends.foldl_member (h : s.Extends t) (hs : s.Sound) (hv : s.Has v) (keys : List Text) :
    keys.foldl t.member v = keys.foldl s.member v :=
  foldl_member_congr fun _ key hmem =>
    member_of_sameAt (h.sameAt (hs.has_of_mem_lookups hv hmem)) key

/-! ## What is set is read back -/

/-- The keys of a walk lead to where the walk ends. -/
theorem Sound.foldl_member_delve (hs : s.Sound) {first : Nat} (hfirst : s.Has (.tome first))
    (keys : List Text) :
    keys.foldl (s.delve first keys).2.member (.tome first) =
      .tome (s.delve first keys).1 := by
  induction keys generalizing s first with
  | nil => rfl
  | cons key rest ih =>
    rw [List.foldl_cons, Store.delve]
    split
    · next inner hinner =>
      have hstep : s.Encloses (.tome first) (.tome inner) := Table.mem_values_of_get? hinner
      -- the rest of the walk begins inside the first tome, so it does not come back to it
      have havoids : s.Avoids (· = .tome first) (.tome inner) := by
        rintro c hreach rfl
        exact hs.acyclic _ (TransGen.head' hstep hreach)
      obtain ⟨hsame, -⟩ := delve_spares (fun c hc => hc ▸ hfirst) havoids rest
      have hmember : (s.delve inner rest).2.member (.tome first) key = .tome inner := by
        rw [member_of_sameAt (hsame _ rfl), member, hinner]
        rfl
      rw [hmember]
      exact ih hs (hs.closed _ _ hstep)
    · obtain ⟨hsame, -⟩ := delve_spares (s := s.plant first key) (P := s.Has)
        (fun c hc => has_plant hc) (avoids_newTome_of_insert (fun _ hc => hc) first key) rest
      have hmember : ((s.plant first key).delve s.tomes.size rest).2.member (.tome first) key =
          .tome s.tomes.size := by
        rw [member_of_sameAt (hsame _ hfirst), member, entries_plant hfirst, Table.get?_insert,
          if_pos rfl]
        rfl
      rw [hmember]
      have hfresh : (s.plant first key).Has (s.newTome .empty).1 := has_fresh_plant
      exact ih (hs.plant hfirst key) hfresh

/-- Keys that lead to a tome still do when the tome gets other entries: none of the tomes on the way
is the tome itself. -/
theorem Sound.foldl_member_setEntries (hs : s.Sound) {keys : List Text}
    (h : keys.foldl s.member v = .tome cell) (entries : Table Value) :
    keys.foldl (s.setEntries cell entries).member v = .tome cell := by
  induction keys generalizing v with
  | nil => exact h
  | cons key rest ih =>
    have hc : (rest.foldl s.member (s.member v key)).isContainer = true := by
      rw [List.foldl_cons] at h
      rw [h]
      rfl
    obtain ⟨hmember, hreach⟩ := reaches_foldl_member hc
    have hne : v ≠ .tome cell := by
      rintro rfl
      rw [List.foldl_cons] at h
      rw [h] at hreach
      exact hs.acyclic _ (TransGen.head' (encloses_member hmember) hreach)
    rw [List.foldl_cons, member_of_sameAt (sameAt_setEntries hne)]
    exact ih h

/-! ## What else is read -/

/-- The lookup whose result is replaced when the entry at the end of keys from a tome is set: the
first before the last that leads to no tome, or else the last. -/
def replaced (s : Store) (first : Nat) (keys : List Text) : Lookup :=
  .entry (.tome (s.dig first keys.dropLast).1)
    ((s.dig first keys.dropLast).2.headD (keys.getLast?.getD []))

/-- Where an entry is set every other lookup that could be made before has the result that it had. -/
theorem Sound.member_of_ne_replaced (hs : s.Sound) {first : Nat} (hfirst : s.Has (.tome first))
    {keys : List Text} {t : Store} (hwalk : s.delve first keys.dropLast = (cell, t)) {w : Value}
    (hw : s.Has w) {key : Text} (hne : Lookup.entry w key ≠ s.replaced first keys) (v : Value) :
    (t.setEntries cell ((t.entries cell).insert (keys.getLast?.getD []) v)).member w key =
      s.member w key := by
  rw [replaced] at hne
  rcases hdig : s.dig first keys.dropLast with ⟨place, _ | ⟨gap, rest⟩⟩
  · -- the walk changed nothing, and the last tome gets the entry
    rw [delve_eq_of_dig_nil hdig] at hwalk
    cases hwalk
    rw [hdig] at hne
    by_cases hcell : w = .tome cell
    · subst hcell
      have hkey : key ≠ keys.getLast?.getD [] := fun h => hne (by rw [h]; rfl)
      rw [member, member, entries_setEntries hw, Table.get?_insert, if_neg hkey]
    · exact member_of_sameAt (sameAt_setEntries hcell) key
  · -- the entry is set in a fresh tome, in which no such lookup is made
    obtain ⟨hentries, hsame, hend⟩ := delve_of_dig_cons hs hfirst hdig
    rw [hwalk] at hentries hsame hend
    have hlast : w ≠ .tome cell := fun h => hend (h ▸ hw)
    rw [member_of_sameAt (sameAt_setEntries hlast)]
    rw [hdig] at hne
    by_cases hcell : w = .tome place
    · subst hcell
      have hkey : key ≠ gap := fun h => hne (by rw [h]; rfl)
      rw [member, member, hentries, Table.get?_insert, if_neg hkey]
    · exact member_of_sameAt (hsame w hw hcell) key

/-- A walk from a fresh tome leaves every lookup that could be made before with its result. -/
theorem member_of_fresh_walk {keys : List Text} {t : Store}
    (hwalk : (s.newTome .empty).2.delve s.tomes.size keys = (cell, t)) {w : Value} (hw : s.Has w)
    (key : Text) (entries : Table Value) :
    (t.setEntries cell entries).member w key = s.member w key := by
  have hextends := extends_newTome s .empty
  obtain ⟨hsame, hend⟩ := delve_spares (s := (s.newTome .empty).2) (P := s.Has)
    (fun c hc => hextends.has hc) (avoids_newTome fun _ hc => hc) keys
  rw [hwalk] at hsame hend
  have hlast : w ≠ .tome cell := fun h => hend.self (h ▸ hw)
  rw [member_of_sameAt (sameAt_setEntries hlast)]
  exact member_of_sameAt ((hextends.sameAt hw).trans (hsame w hw)) key

/-- What is set at the end of keys from a tome is found there. -/
theorem Sound.foldl_member_set (hs : s.Sound) {first : Nat} (hfirst : s.Has (.tome first))
    {keys : List Text} (hkeys : keys ≠ []) {t : Store}
    (hwalk : s.delve first keys.dropLast = (cell, t)) (v : Value) :
    keys.foldl (t.setEntries cell ((t.entries cell).insert (keys.getLast?.getD []) v)).member
      (.tome first) = v := by
  obtain ⟨hsound, hhas, -⟩ := hs.delve hfirst keys.dropLast
  have hend := hs.foldl_member_delve hfirst keys.dropLast
  rw [hwalk] at hsound hhas hend
  have hkept := hsound.foldl_member_setEntries hend
    ((t.entries cell).insert (keys.getLast?.getD []) v)
  obtain ⟨before, last, rfl⟩ := (List.eq_nil_or_concat' keys).resolve_left hkeys
  rw [List.dropLast_concat] at hkept
  rw [List.getLast?_concat, Option.getD_some] at hkept ⊢
  rw [List.foldl_append, hkept, List.foldl_cons, List.foldl_nil, member, entries_setEntries hhas,
    Table.get?_insert, if_pos rfl, Option.getD_some]

end Store

/-! ## Names and paths -/

namespace Scope

variable {scope : Scope} {s t : Store} {root : Text}

/-- The lookups by which a path is read. -/
def lookups (scope : Scope) (s : Store) (root : Text) (keys : List Text) : List Lookup :=
  .name root :: match scope.lookup? root with
    | some v => s.lookups v keys
    | none => []

/-- The lookup whose result is replaced when a path is set: of the root, if it has no tome or is all
of the path. -/
def replaced (scope : Scope) (s : Store) (root : Text) (keys : List Text) : Lookup :=
  match scope.globals.get? root, keys with
  | some (.tome first), _ :: _ => s.replaced first keys
  | _, _ => .name root

theorem name_mem_lookups (keys : List Text) : .name root ∈ scope.lookups s root keys :=
  List.mem_cons_self

theorem mem_lookups {v : Value} (hroot : scope.lookup? root = some v) {keys : List Text}
    {look : Lookup} (h : look ∈ s.lookups v keys) : look ∈ scope.lookups s root keys := by
  rw [lookups, hroot]
  exact List.mem_cons_of_mem _ h

theorem replaced_of_tome {first : Nat} (hfirst : scope.globals.get? root = some (.tome first))
    {keys : List Text} (hkeys : keys ≠ []) :
    scope.replaced s root keys = s.replaced first keys := by
  obtain ⟨key, rest, rfl⟩ := List.exists_cons_of_ne_nil hkeys
  unfold replaced
  rw [hfirst]

theorem replaced_nil : scope.replaced s root [] = .name root := by
  unfold replaced
  split
  · next hkeys => cases hkeys
  · rfl

theorem replaced_of_not_tome (hnone : ∀ cell, scope.globals.get? root ≠ some (.tome cell))
    (keys : List Text) : scope.replaced s root keys = .name root := by
  unfold replaced
  split
  · next first _ _ hfirst => exact absurd hfirst (hnone first)
  · rfl

theorem follow_of_lookup? {v : Value} (hroot : scope.lookup? root = some v) (keys : List Text) :
    scope.follow s root keys = keys.foldl s.member v := by
  unfold follow
  rw [hroot]

/-- A bound name is looked up with what it is bound to, and other names as before. -/
theorem lookup?_bound (h : scope.frames = []) (v : Value) (name : Text) :
    lookup? { scope with globals := scope.globals.insert root v } name =
      if name = root then some v else scope.lookup? name := by
  have hstill : ({ scope with globals := scope.globals.insert root v } : Scope).frames = [] := h
  rw [lookup?_of_frames hstill, lookup?_of_frames h, Table.get?_insert]

/-- A path reads the same where its root and its keys are looked up with the same results. -/
theorem follow_congr {scope' : Scope} {keys : List Text}
    (hroot : scope'.lookup? root = scope.lookup? root) (haliases : scope'.aliases = scope.aliases)
    (hkeys : ∀ v, scope.lookup? root = some v → keys.foldl t.member v = keys.foldl s.member v) :
    scope'.follow t root keys = scope.follow s root keys := by
  unfold follow
  rw [hroot, haliases]
  cases hv : scope.lookup? root with
  | some v => exact hkeys v hv
  | none => rfl

end Scope

namespace Run

variable {σ : Type} {m m' : Machine σ} {root : Text} {v : Value}

/-- A path from a name that has a tome. -/
theorem follow_bindPath_of_tome (hm : m.Grounded) (hframes : m.scope.frames = [])
    (hopen : m.scope.isSealed root = false) {first : Nat}
    (hfirst : m.scope.globals.get? root = some (.tome first)) {keys : List Text}
    (hkeys : keys ≠ []) (hrun : (bindPath root keys v).run.run m = (.ok (), m')) :
    m'.scope.follow m'.store root keys = v ∧ ∀ other others,
      m.scope.replaced m.store root keys ∉ m.scope.lookups m.store other others →
      m'.scope.follow m'.store other others = m.scope.follow m.store other others := by
  have hhas : m.store.Has (.tome first) := hm.admits.globals.get? hfirst
  rcases hwalk : m.store.delve first keys.dropLast with ⟨cell, t⟩
  rw [run_bindPath hopen keys v (Machine.rooted_of_tome hfirst) hwalk] at hrun
  split at hrun
  · cases hrun
  cases hrun
  constructor
  · have hroot : m.scope.lookup? root = some (.tome first) := by
      rw [Scope.lookup?_of_frames hframes, hfirst]
    exact (Scope.follow_of_lookup? hroot keys).trans
      (hm.sound.foldl_member_set hhas hkeys hwalk v)
  · intro other others hother
    apply Scope.follow_congr rfl rfl
    intro w (hw : m.scope.lookup? other = some w)
    have hwhas : m.store.Has w := Scope.has_of_lookup? hframes hm.admits.globals hw
    apply Store.foldl_member_congr
    intro u key hmem
    apply hm.sound.member_of_ne_replaced hhas hwalk (hm.sound.has_of_mem_lookups hwhas hmem)
    intro hsame
    rw [Scope.replaced_of_tome hfirst hkeys, ← hsame] at hother
    exact hother (Scope.mem_lookups hw hmem)

/-- A path from a name that has no tome: the name gets a fresh one. -/
theorem follow_bindPath_of_not_tome (hm : m.Grounded) (hframes : m.scope.frames = [])
    (hopen : m.scope.isSealed root = false)
    (hnone : ∀ cell, m.scope.globals.get? root ≠ some (.tome cell)) {keys : List Text}
    (hkeys : keys ≠ []) (hrun : (bindPath root keys v).run.run m = (.ok (), m')) :
    m'.scope.follow m'.store root keys = v ∧ ∀ other others,
      m.scope.replaced m.store root keys ∉ m.scope.lookups m.store other others →
      m'.scope.follow m'.store other others = m.scope.follow m.store other others := by
  have hextends := Store.extends_newTome m.store .empty
  have hsound : (m.store.newTome .empty).2.Sound := hm.sound.newTome fun v hv => by simp at hv
  have hhas : (m.store.newTome .empty).2.Has (m.store.newTome .empty).1 := Store.has_newTome
  rcases hwalk : (m.store.newTome .empty).2.delve m.store.tomes.size keys.dropLast with ⟨cell, t⟩
  rw [run_bindPath hopen keys v (Machine.rooted_of_not_tome hnone) hwalk] at hrun
  split at hrun
  · cases hrun
  cases hrun
  constructor
  · have hroot := (Scope.lookup?_bound hframes (.tome m.store.tomes.size) root).trans (if_pos rfl)
    exact (Scope.follow_of_lookup? hroot keys).trans
      (hsound.foldl_member_set hhas hkeys hwalk v)
  · intro other others hother
    -- the lookup that is replaced is the one of the name
    have hne : other ≠ root := by
      rintro rfl
      rw [Scope.replaced_of_not_tome hnone] at hother
      exact hother (Scope.name_mem_lookups others)
    apply Scope.follow_congr
    · exact (Scope.lookup?_bound hframes (.tome m.store.tomes.size) other).trans (if_neg hne)
    · rfl
    · intro w hw
      have hwhas : m.store.Has w := Scope.has_of_lookup? hframes hm.admits.globals hw
      apply Store.foldl_member_congr
      intro u key hmem
      exact Store.member_of_fresh_walk hwalk (hm.sound.has_of_mem_lookups hwhas hmem) key _

/-- What a path is set to is read back, and paths that are read without the lookup that is replaced
read as before. -/
theorem follow_bindPath (hm : m.Grounded) (hframes : m.scope.frames = []) {keys : List Text}
    (hkeys : keys ≠ []) (hrun : (bindPath root keys v).run.run m = (.ok (), m')) :
    m'.scope.follow m'.store root keys = v ∧ ∀ other others,
      m.scope.replaced m.store root keys ∉ m.scope.lookups m.store other others →
      m'.scope.follow m'.store other others = m.scope.follow m.store other others := by
  have hopen : m.scope.isSealed root = false := by
    rw [Bool.eq_false_iff]
    intro hsealed
    rw [run_bindPath_of_isSealed hsealed] at hrun
    cases hrun
  by_cases hroot : ∃ first, m.scope.globals.get? root = some (.tome first)
  · obtain ⟨first, hfirst⟩ := hroot
    exact follow_bindPath_of_tome hm hframes hopen hfirst hkeys hrun
  · have hnone : ∀ cell, m.scope.globals.get? root ≠ some (.tome cell) :=
      fun cell hcell => hroot ⟨cell, hcell⟩
    exact follow_bindPath_of_not_tome hm hframes hopen hnone hkeys hrun

end Run

end Grimoire
