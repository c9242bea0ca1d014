import Grimoire.Block

/-!
# Balanced lines

Roles that unwind `d` blocks close `d` more blocks than they open, and nowhere more than that. What
stands before the `conclude` of a block unwinds nothing: it is balanced. The search for a `conclude`
passes over balanced lines, and an `otherwise:` of a block cuts its body into two balanced parts.
-/

namespace Grimoire

namespace Block

/-! ## Steps of the searches -/

section Steps

variable {role : Role} {depth : Nat} {rest : List Role}

theorem closeFrom_opener :
    closeFrom depth (.opener :: rest) = (closeFrom (depth + 1) rest).map (· + 1) := by
  cases depth <;> rfl

theorem closeFrom_conclude :
    closeFrom (depth + 1) (.conclude :: rest) = (closeFrom depth rest).map (· + 1) := rfl

theorem closeFrom_skip (ho : role ≠ .opener) (hc : role ≠ .conclude) :
    closeFrom depth (role :: rest) = (closeFrom depth rest).map (· + 1) := by
  cases role with
  | opener => exact absurd rfl ho
  | conclude => exact absurd rfl hc
  | «otherwise» | plain => cases depth <;> rfl

theorem otherwiseFrom_opener :
    otherwiseFrom depth (.opener :: rest) = (otherwiseFrom (depth + 1) rest).map (· + 1) := by
  cases depth <;> rfl

theorem otherwiseFrom_conclude :
    otherwiseFrom depth (.conclude :: rest) = (otherwiseFrom (depth - 1) rest).map (· + 1) := by
  cases depth <;> rfl

theorem otherwiseFrom_plain :
    otherwiseFrom depth (.plain :: rest) = (otherwiseFrom depth rest).map (· + 1) := by
  cases depth <;> rfl

/-- Inside a further block an `otherwise:` is passed over. -/
theorem otherwiseFrom_otherwise :
    otherwiseFrom (depth + 1) (.otherwise :: rest)
      = (otherwiseFrom (depth + 1) rest).map (· + 1) := rfl

theorem lt_length_of_otherwiseFrom {place : Nat} {roles : List Role}
    (h : otherwiseFrom depth roles = some place) : place < roles.length := by
  induction roles generalizing depth place with
  | nil => simp [otherwiseFrom] at h
  | cons role rest ih =>
    have further : ∀ {d}, (otherwiseFrom d rest).map (· + 1) = some place →
        place < (role :: rest).length := by
      intro d hd
      obtain ⟨p, hp, rfl⟩ := Option.map_eq_some_iff.1 hd
      exact Nat.succ_lt_succ (ih hp)
    cases role with
    | opener => exact further (otherwiseFrom_opener.symm.trans h)
    | conclude => exact further (otherwiseFrom_conclude.symm.trans h)
    | plain => exact further (otherwiseFrom_plain.symm.trans h)
    | «otherwise» =>
      cases depth with
      | zero =>
        cases h
        exact Nat.succ_pos _
      | succ depth => exact further (otherwiseFrom_otherwise.symm.trans h)

/-- A search that goes on over one more line finds one place further. -/
theorem map_add_map_add {found : Option Nat} {m n : Nat} :
    (found.map (· + m)).map (· + n) = found.map (· + (m + n)) := by
  cases found <;> simp [Nat.add_assoc]

end Steps

/-! ## Unwinding -/

/-- The roles close `d` more blocks than they open, and no beginning of them closes more. -/
inductive Unwinds : Nat → List Role → Prop
  | nil : Unwinds 0 []
  | skip {d : Nat} {role : Role} {rest : List Role} (ho : role ≠ .opener) (hc : role ≠ .conclude) :
    Unwinds d rest → Unwinds d (role :: rest)
  | opener {d : Nat} {rest : List Role} : Unwinds (d + 1) rest → Unwinds d (.opener :: rest)
  | conclude {d : Nat} {rest : List Role} : Unwinds d rest → Unwinds (d + 1) (.conclude :: rest)

namespace Unwinds

variable {d e : Nat} {roles more : List Role}

theorem append (h : Unwinds d roles) (h' : Unwinds e more) : Unwinds (d + e) (roles ++ more) := by
  induction h with
  | nil => rwa [Nat.zero_add]
  | skip ho hc _ ih => exact .skip ho hc ih
  | @opener d rest _ ih =>
    refine .opener ?_
    rwa [Nat.add_right_comm]
  | @conclude d rest _ ih =>
    rw [Nat.add_right_comm]
    exact .conclude ih

/-- A whole block unwinds nothing. -/
theorem block (h : Unwinds 0 roles) (h' : Unwinds d more) :
    Unwinds d (.opener :: (roles ++ .conclude :: more)) := by
  refine .opener ?_
  have happend := h.append h'.conclude
  rwa [Nat.zero_add] at happend

/-- A search for the end of one of the blocks around goes on behind the roles. -/
theorem closeFrom_append (h : Unwinds d roles) :
    closeFrom (e + d) (roles ++ more) = (closeFrom e more).map (· + roles.length) := by
  induction h with
  | nil => simp
  | skip ho hc _ ih =>
    rw [List.cons_append, closeFrom_skip ho hc, ih, map_add_map_add]
    rfl
  | opener _ ih =>
    rw [List.cons_append, closeFrom_opener, Nat.add_assoc, ih, map_add_map_add]
    rfl
  | conclude _ ih =>
    rw [List.cons_append, ← Nat.add_assoc, closeFrom_conclude, ih, map_add_map_add]
    rfl

/-- The end of a block stands behind what unwinds nothing. -/
theorem close?_append (h : Unwinds 0 roles) :
    close? (roles ++ .conclude :: more) = some roles.length := by
  rw [close?, h.closeFrom_append (e := 0)]
  simp [closeFrom]

/-- A search for an `otherwise:` outside the blocks that the roles unwind goes on behind them. -/
theorem otherwiseFrom_append (h : Unwinds d roles) :
    otherwiseFrom (e + d + 1) (roles ++ more)
      = (otherwiseFrom (e + 1) more).map (· + roles.length) := by
  induction h with
  | nil => simp
  | @skip d role rest ho hc _ ih =>
    have hstep : otherwiseFrom (e + d + 1) (role :: (rest ++ more))
        = (otherwiseFrom (e + d + 1) (rest ++ more)).map (· + 1) := by
      cases role with
      | opener => exact absurd rfl ho
      | conclude => exact absurd rfl hc
      | «otherwise» => exact otherwiseFrom_otherwise
      | plain => exact otherwiseFrom_plain
    rw [List.cons_append, hstep, ih, map_add_map_add]
    rfl
  | opener _ ih =>
    rw [List.cons_append, otherwiseFrom_opener, Nat.add_assoc e, ih, map_add_map_add]
    rfl
  | conclude _ ih =>
    rw [List.cons_append, otherwiseFrom_conclude, Nat.add_sub_cancel, ← Nat.add_assoc, ih,
      map_add_map_add]
    rfl

/-- Where the roles close more blocks than the search is inside of, it ends. -/
theorem isSome_closeFrom (h : Unwinds d roles) (he : e < d) : (closeFrom e roles).isSome := by
  induction h generalizing e with
  | nil => exact absurd he (Nat.not_lt_zero e)
  | skip ho hc _ ih =>
    rw [closeFrom_skip ho hc, Option.isSome_map]
    exact ih he
  | opener _ ih =>
    rw [closeFrom_opener, Option.isSome_map]
    exact ih (Nat.succ_lt_succ he)
  | conclude _ ih =>
    cases e with
    | zero => rfl
    | succ e =>
      rw [closeFrom_conclude, Option.isSome_map]
      exact ih (Nat.lt_of_succ_lt_succ he)

end Unwinds

/-- What stands before the end of a block unwinds the blocks that the search is inside of. -/
theorem exists_unwinds_of_closeFrom {depth place : Nat} {roles : List Role}
    (h : closeFrom depth roles = some place) :
    ∃ before after, roles = before ++ .conclude :: after ∧ before.length = place ∧
      Unwinds depth before := by
  -- along the search: each line read moves into the front and changes the depth as `Unwinds` does
  induction roles generalizing depth place with
  | nil => simp [closeFrom] at h
  | cons role rest ih =>
    have further : ∀ {d}, (closeFrom d rest).map (· + 1) = some place →
        ∃ before after, rest = before ++ .conclude :: after ∧ before.length + 1 = place ∧
          Unwinds d before := by
      intro d hd
      obtain ⟨p, hp, rfl⟩ := Option.map_eq_some_iff.1 hd
      obtain ⟨before, after, hrest, hlength, hbefore⟩ := ih hp
      exact ⟨before, after, hrest, by rw [hlength], hbefore⟩
    cases role with
    | opener =>
      rw [closeFrom_opener] at h
      obtain ⟨before, after, rfl, hlength, hbefore⟩ := further h
      exact ⟨.opener :: before, after, rfl, hlength, hbefore.opener⟩
    | conclude =>
      cases depth with
      | zero =>
        cases h
        exact ⟨[], rest, rfl, rfl, .nil⟩
      | succ depth =>
        rw [closeFrom_conclude] at h
        obtain ⟨before, after, rfl, hlength, hbefore⟩ := further h
        exact ⟨.conclude :: before, after, rfl, hlength, hbefore.conclude⟩
    | «otherwise» | plain =>
      rw [closeFrom_skip Role.noConfusion Role.noConfusion] at h
      obtain ⟨before, after, rfl, hlength, hbefore⟩ := further h
      exact ⟨_ :: before, after, rfl, hlength, .skip Role.noConfusion Role.noConfusion hbefore⟩

/-- An `otherwise:` outside further blocks leaves balanced roles behind it, and those before it
unwind the blocks that the search is inside of. -/
theorem Unwinds.split {depth place : Nat} {roles : List Role} (h : Unwinds depth roles)
    (hplace : otherwiseFrom depth roles = some place) :
    ∃ before after, roles = before ++ .otherwise :: after ∧ before.length = place ∧
      Unwinds depth before ∧ Unwinds 0 after := by
  -- a separator counts at depth 0 only, and there the balance left over is that of the rest
  induction h generalizing place with
  | nil => simp [otherwiseFrom] at hplace
  | @skip d role rest ho hc hrest ih =>
    have further : (otherwiseFrom d rest).map (· + 1) = some place →
        ∃ before after, role :: rest = before ++ .otherwise :: after ∧ before.length = place ∧
          Unwinds d before ∧ Unwinds 0 after := by
      intro hmap
      obtain ⟨p, hp, rfl⟩ := Option.map_eq_some_iff.1 hmap
      obtain ⟨before, after, rfl, hlength, hbefore, hafter⟩ := ih hp
      exact ⟨role :: before, after, rfl, by rw [List.length_cons, hlength],
        .skip ho hc hbefore, hafter⟩
    cases role with
    | opener => exact absurd rfl ho
    | conclude => exact absurd rfl hc
    | «otherwise» =>
      cases d with
      | zero =>
        cases hplace
        exact ⟨[], rest, rfl, rfl, .nil, hrest⟩
      | succ d =>
        rw [otherwiseFrom_otherwise] at hplace
        exact further hplace
    | plain =>
      rw [otherwiseFrom_plain] at hplace
      exact further hplace
  | opener _ ih =>
    rw [otherwiseFrom_opener] at hplace
    obtain ⟨p, hp, rfl⟩ := Option.map_eq_some_iff.1 hplace
    obtain ⟨before, after, rfl, hlength, hbefore, hafter⟩ := ih hp
    exact ⟨.opener :: before, after, rfl, by rw [List.length_cons, hlength], hbefore.opener, hafter⟩
  | conclude _ ih =>
    rw [otherwiseFrom_conclude, Nat.add_sub_cancel] at hplace
    obtain ⟨p, hp, rfl⟩ := Option.map_eq_some_iff.1 hplace
    obtain ⟨before, after, rfl, hlength, hbefore, hafter⟩ := ih hp
    exact ⟨.conclude :: before, after, rfl, by rw [List.length_cons, hlength], hbefore.conclude,
      hafter⟩

/-! ## Closed lines -/

/-- Every block that is opened among the roles is closed among them. -/
def AllClosed : List Role → Prop
  | [] => True
  | role :: rest => (role = .opener → (close? rest).isSome) ∧ AllClosed rest

/-- Roles that unwind blocks close all that they open. -/
theorem Unwinds.allClosed {d : Nat} {roles : List Role} (h : Unwinds d roles) :
    AllClosed roles := by
  induction h with
  | nil => trivial
  | skip ho _ _ ih => exact ⟨fun h => absurd h ho, ih⟩
  | opener hrest ih => exact ⟨fun _ => hrest.isSome_closeFrom (Nat.succ_pos _), ih⟩
  | conclude _ ih => exact ⟨fun h => Role.noConfusion h, ih⟩

theorem AllClosed.drop {roles : List Role} (h : AllClosed roles) (n : Nat) :
    AllClosed (roles.drop n) := by
  induction roles generalizing n with
  | nil => simpa using h
  | cons role rest ih =>
    cases n with
    | zero => exact h
    | succ n => exact ih h.2 n

end Block

end Grimoire
