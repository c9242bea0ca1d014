import Grimoire.Console
import Grimoire.Proofs.Recognizers

/-!
# Where texts are saved

A path is a list of components: the root, points and names. The path under which a text is saved has
the components of the save directory and one more, the name at the end of the path that was asked
for. A path that does not end in a name is refused. So a text that is saved becomes a file directly
in the save directory, and no other file changes.
-/

namespace Grimoire

open Text

/-! ## Pieces between slashes -/

namespace Text

variable {sep : Char} {s : Text}

theorem splitOn_append (sep : Char) (s t : Text) :
    splitOn sep (s ++ sep :: t) = splitOn sep s ++ splitOn sep t := by
  induction s with
  | nil => rw [List.nil_append, splitOn_cons, if_pos rfl]; rfl
  | cons c s ih =>
    obtain ⟨more, hmore, -⟩ := exists_splitOn_eq sep s
    rw [List.cons_append, splitOn_cons, splitOn_cons, ih, hmore]
    split
    · rfl
    · rfl

theorem not_mem_of_mem_splitOn {piece : Text} (h : piece ∈ splitOn sep s) : sep ∉ piece := by
  induction s generalizing piece with
  | nil =>
    rw [show splitOn sep [] = [[]] from rfl, List.mem_singleton] at h
    rw [h]
    exact List.not_mem_nil
  | cons c s ih =>
    obtain ⟨more, hmore, -⟩ := exists_splitOn_eq sep s
    rw [hmore] at ih
    rw [splitOn_cons, hmore] at h
    split at h
    · rcases List.mem_cons.1 h with rfl | h
      · exact List.not_mem_nil
      · exact ih h
    · next hc =>
      rcases List.mem_cons.1 h with rfl | h
      · rw [List.mem_cons, not_or]
        exact ⟨Ne.symm hc, ih List.mem_cons_self⟩
      · exact ih (List.mem_cons_of_mem _ h)

end Text

/-! ## Components -/

/-- A component of a path. -/
inductive Component where
  /-- The slash at the beginning. -/
  | root
  /-- The point at the beginning. -/
  | here
  /-- Two points. -/
  | above
  | name (name : Text)
  deriving DecidableEq, Repr

namespace Component

/-- What a piece between slashes stands for: nothing if it is empty or a point. -/
def ofPiece? (piece : Text) : Option Component :=
  if piece = [] ∨ piece = ['.'] then none
  else if piece = ['.', '.'] then some above else some (name piece)

/-- The component before all names, if there is one. -/
def lead (path : Text) : List Component :=
  if path.head? = some '/' then [root]
  else if (splitOn '/' path).head? = some ['.'] then [here] else []

/-- The components of a path. -/
def ofPath (path : Text) : List Component :=
  lead path ++ (splitOn '/' path).filterMap ofPiece?

end Component

/-- A text that can name a file. -/
structure IsFileName (name : Text) : Prop where
  ne_nil : name ≠ []
  slashless : '/' ∉ name
  ne_here : name ≠ ['.']
  ne_above : name ≠ ['.', '.']

instance (name : Text) : Decidable (IsFileName name) :=
  decidable_of_iff (name ≠ [] ∧ '/' ∉ name ∧ name ≠ ['.'] ∧ name ≠ ['.', '.'])
    ⟨fun ⟨h₁, h₂, h₃, h₄⟩ => ⟨h₁, h₂, h₃, h₄⟩, fun h =>
      ⟨h.ne_nil, h.slashless, h.ne_here, h.ne_above⟩⟩

namespace Component

variable {path name directory : Text}

theorem name_not_mem_lead : .name name ∉ lead path := by
  rw [lead]
  split
  · simp
  · split <;> simp

theorem ofPiece?_eq_name_iff {piece : Text} : ofPiece? piece = some (.name name) ↔
    piece = name ∧ piece ≠ [] ∧ piece ≠ ['.'] ∧ piece ≠ ['.', '.'] := by
  rw [ofPiece?]
  split
  · next h =>
    refine iff_of_false (Option.some_ne_none _).symm ?_
    rintro ⟨-, hempty, hdot, -⟩
    exact h.elim hempty hdot
  · next h =>
    rw [not_or] at h
    split
    · next habove => simp [habove]
    · next habove => simp [h, habove]

theorem isFileName_of_mem (h : .name name ∈ ofPath path) : IsFileName name := by
  rcases List.mem_append.1 h with h | h
  · exact absurd h name_not_mem_lead
  · obtain ⟨piece, hpiece, hname⟩ := List.mem_filterMap.1 h
    obtain ⟨rfl, hne, hhere, habove⟩ := ofPiece?_eq_name_iff.1 hname
    exact ⟨hne, not_mem_of_mem_splitOn hpiece, hhere, habove⟩

theorem splitOn_of_isFileName (h : IsFileName name) : splitOn '/' name = [name] := by
  apply splitOn_eq_singleton
  rintro c hc rfl
  exact h.slashless hc

theorem filterMap_of_isFileName (h : IsFileName name) :
    (splitOn '/' name).filterMap ofPiece? = [.name name] := by
  rw [splitOn_of_isFileName h, List.filterMap_cons_some
    (ofPiece?_eq_name_iff.2 ⟨rfl, h.ne_nil, h.ne_here, h.ne_above⟩)]
  rfl

/-- A path that does not end in a name has no names, or it ends in two points. -/
theorem names_or_above (h : ∀ name, ¬ (ofPath path).getLast? = some (.name name)) :
    (∀ name, .name name ∉ ofPath path) ∨ (ofPath path).getLast? = some .above := by
  cases hlast : ((splitOn '/' path).filterMap ofPiece?).getLast? with
  | none =>
    left
    intro name hname
    rw [ofPath, List.getLast?_eq_none_iff.1 hlast, List.append_nil] at hname
    exact name_not_mem_lead hname
  | some last =>
    right
    have hend : (ofPath path).getLast? = some last := by
      rw [ofPath, List.getLast?_append, hlast, Option.some_or]
    obtain ⟨piece, -, hpiece⟩ := List.mem_filterMap.1 (List.mem_of_getLast? hlast)
    rw [ofPiece?] at hpiece
    split at hpiece
    · cases hpiece
    · split at hpiece
      · cases hpiece
        exact hend
      · cases hpiece
        exact absurd hend (h piece)

/-- What stands behind a slash does not matter for the beginning. -/
theorem lead_append (s t t' : Text) : lead (s ++ '/' :: t) = lead (s ++ '/' :: t') := by
  obtain ⟨more, hmore, -⟩ := exists_splitOn_eq '/' s
  rw [lead, lead, splitOn_append, splitOn_append, hmore]
  cases s <;> rfl

theorem lead_append_of_ne_nil {s : Text} (hs : s ≠ []) (t : Text) : lead (s ++ '/' :: t) = lead s := by
  obtain ⟨more, hmore, -⟩ := exists_splitOn_eq '/' s
  obtain ⟨c, s, rfl⟩ := List.exists_cons_of_ne_nil hs
  rw [lead, lead, splitOn_append, hmore]
  rfl

/-- A name put after a directory is one component more. -/
theorem ofPath_joinPath (h : IsFileName name) :
    ofPath (Console.joinPath directory name) = ofPath directory ++ [.name name] := by
  rw [Console.joinPath]
  split
  · next hend =>
    rw [Bool.or_eq_true, List.isEmpty_iff, beq_iff_eq, List.getLast?_eq_some_iff] at hend
    rcases hend with rfl | ⟨s, rfl⟩
    · -- nothing stands before the name
      have hlead : lead name = [] := by
        have hslash : name.head? ≠ some '/' := fun hhead =>
          h.slashless (List.mem_of_mem_head? hhead)
        have hhere : (splitOn '/' name).head? ≠ some ['.'] := by
          rw [splitOn_of_isFileName h]
          exact fun hhead => h.ne_here (Option.some.inj hhead)
        rw [lead, if_neg hslash, if_neg hhere]
      rw [List.nil_append, ofPath, hlead, filterMap_of_isFileName h]
      rfl
    · rw [List.append_assoc, List.singleton_append, ofPath, ofPath, splitOn_append, splitOn_append,
        lead_append s name [], List.filterMap_append, List.filterMap_append,
        filterMap_of_isFileName h]
      simp [splitOn, ofPiece?]
  · next hend =>
    have hne : directory ≠ [] := by
      rintro rfl
      exact hend rfl
    rw [ofPath, lead_append_of_ne_nil hne, splitOn_append, List.filterMap_append,
      filterMap_of_isFileName h, ← List.append_assoc]
    rfl

end Component

/-! ## The name at the end of a path -/

namespace Console

open Component

variable {directory filename name : Text}

/-- The last name of a path is its last component, if that is a name. -/
theorem lastName?_eq_some_iff :
    lastName? filename = some name ↔ (ofPath filename).getLast? = some (.name name) := by
  have hfilter : ∀ pieces : List Text, pieces.filterMap ofPiece? =
      (pieces.filter fun piece => piece ≠ [] ∧ piece ≠ ['.']).map fun piece =>
        if piece = ['.', '.'] then above else .name piece := by
    intro pieces
    induction pieces with
    | nil => rfl
    | cons piece pieces ih => grind [ofPiece?]
  rw [lastName?, ofPath, hfilter, List.getLast?_append, List.getLast?_map]
  cases hlast : ((splitOn '/' filename).filter fun piece => piece ≠ [] ∧ piece ≠ ['.']).getLast? with
  | none =>
    rw [Option.map_none, Option.none_or]
    constructor
    · intro h
      cases h
    · intro h
      exact absurd (List.mem_of_getLast? h) name_not_mem_lead
  | some last =>
    rw [Option.map_some, Option.some_or]
    by_cases habove : last = ['.', '.']
    · subst habove
      simp
    · rw [if_neg habove]
      split
      · next h =>
        exact absurd (Option.some.inj h) habove
      · simp

end Console

/-! ## Files in a directory -/

namespace Files

variable {f f' : Files} {directory name : Text} {path place : FilePath}

/-- The directory that a text names. The empty text names the working directory. -/
def locateDirectory (f : Files) (directory : Text) : Except FileFault FilePath :=
  if directory = [] then .ok f.here else f.locate directory

theorem step_eq_ok_iff (h : IsFileName name) : f.step place name = .ok path ↔
    f.kind? place = some .directory ∧ byteLength name ≤ maxNameLength ∧ path = place ++ [name] := by
  rw [step]
  split
  · next hkind => simp [hkind]
  · next hkind => simp [hkind]
  · next hkind =>
    rw [if_neg (not_or.2 ⟨h.ne_nil, h.ne_here⟩), if_neg h.ne_above]
    split
    · next hlong => simp [Nat.not_le.2 hlong]
    · next hshort => simp [hkind, Nat.not_lt.1 hshort, eq_comm]

/-- A step of no name leads nowhere else. -/
theorem step_nil_bind (f : Files) (place : FilePath) (name : Text) :
    (f.step place [] >>= fun place => f.step place name) = f.step place name := by
  rw [step]
  split
  · next hkind => rw [step, hkind]; rfl
  · next hkind => rw [step, hkind]; rfl
  · rw [if_pos (.inl rfl)]
    rfl

/-- The way to what stands behind a slash begins with the way to what stands before it. -/
theorem exists_locate_append (f : Files) (s : Text) : ∃ (start : FilePath) (names : List Text),
    (∀ t, f.locate (s ++ '/' :: t) = (names ++ splitOn '/' t).foldlM f.step start) ∧
      (s ≠ [] → f.locate s = names.foldlM f.step start) := by
  cases s with
  | nil => exact ⟨[], [], fun t => rfl, fun h => absurd rfl h⟩
  | cons c s =>
    by_cases hc : c = '/'
    · subst hc
      refine ⟨[], splitOn '/' s, fun t => ?_, fun _ => rfl⟩
      rw [← splitOn_append]
      rfl
    · refine ⟨f.here, splitOn '/' (c :: s), fun t => ?_, fun _ => ?_⟩
      · rw [← splitOn_append, List.cons_append, locate]
        · exact fun h => nomatch h
        · exact fun rest h => hc (List.cons.inj h).1
      · rw [locate]
        · exact fun h => nomatch h
        · exact fun rest h => hc (List.cons.inj h).1

/-- A name put after a directory is a step from the directory. -/
theorem locate_joinPath (f : Files) (h : IsFileName name) (directory : Text) :
    f.locate (Console.joinPath directory name) =
      f.locateDirectory directory >>= fun place => f.step place name := by
  have hname := Component.splitOn_of_isFileName h
  rw [Console.joinPath, locateDirectory]
  split
  · next hend =>
    rw [Bool.or_eq_true, List.isEmpty_iff, beq_iff_eq, List.getLast?_eq_some_iff] at hend
    rcases hend with rfl | ⟨s, rfl⟩
    · rw [List.nil_append, if_pos rfl, locate, hname]
      · exact bind_pure _
      · exact h.ne_nil
      · rintro rest rfl
        exact h.slashless List.mem_cons_self
    · obtain ⟨start, names, hbehind, -⟩ := f.exists_locate_append s
      rw [List.append_assoc, List.singleton_append, hbehind, hname, if_neg (by simp), hbehind,
        List.foldlM_append, show splitOn '/' [] = [[]] from rfl, List.foldlM_append, bind_assoc]
      refine bind_congr fun place => ?_
      simp only [List.foldlM_cons, List.foldlM_nil, bind_pure]
      exact (f.step_nil_bind place name).symm
  · next hend =>
    have hne : directory ≠ [] := by
      rintro rfl
      exact hend rfl
    obtain ⟨start, names, hbehind, hbefore⟩ := f.exists_locate_append directory
    rw [hbehind, hname, if_neg hne, hbefore hne, List.foldlM_append]
    simp only [List.foldlM_cons, List.foldlM_nil, bind_pure]

/-! ### Directories that are made -/

theorem bind_eq_ok_iff {ε α β : Type} {x : Except ε α} {g : α → Except ε β} {b : β} :
    x >>= g = .ok b ↔ ∃ a, x = .ok a ∧ g a = .ok b := by
  cases x with
  | error fault => exact ⟨nofun, fun ⟨_, h, _⟩ => nomatch h⟩
  | ok a => exact ⟨fun h => ⟨a, rfl, h⟩, fun ⟨_, ha, h⟩ => Except.ok.inj ha ▸ h⟩

/-- Making a directory changes no file. -/
theorem makeStep_keeps {before after : Files × FilePath} (h : makeStep before name = .ok after) :
    after.1.files = before.1.files ∧ after.1.here = before.1.here := by
  obtain ⟨path, -, h⟩ := bind_eq_ok_iff.1 h
  split at h <;> cases h
  · exact ⟨rfl, rfl⟩
  · exact ⟨rfl, rfl⟩

theorem makeAlong_keeps {names : List Text} {before after : Files × FilePath}
    (h : makeAlong before names = .ok after) :
    after.1.files = before.1.files ∧ after.1.here = before.1.here := by
  induction names generalizing before with
  | nil =>
    cases h
    exact ⟨rfl, rfl⟩
  | cons name names ih =>
    rw [makeAlong] at h
    split at h
    · next next hnext =>
      obtain ⟨hfiles, hhere⟩ := makeStep_keeps hnext
      obtain ⟨hfiles', hhere'⟩ := ih h
      exact ⟨hfiles'.trans hfiles, hhere'.trans hhere⟩
    · cases h
    · cases h

theorem makeDirectory_keeps (h : f.makeDirectory directory = .ok f') :
    f'.files = f.files ∧ f'.here = f.here := by
  have hmap : ∀ {start : Files × FilePath} {names : List Text}, start.1 = f →
      (makeAlong start names).map Prod.fst = .ok f' →
        f'.files = f.files ∧ f'.here = f.here := by
    rintro start names rfl h
    cases hmade : makeAlong start names with
    | error fault =>
      rw [hmade] at h
      cases h
    | ok after =>
      rw [hmade] at h
      cases h
      exact makeAlong_keeps hmade
  rw [makeDirectory.eq_def] at h
  split at h
  · cases h
    exact ⟨rfl, rfl⟩
  · exact hmap rfl h
  · exact hmap rfl h

end Files

/-! ## Saves -/

namespace Console

open Component

variable {c : Console} {directory filename name path text : Text} {files : Files}

theorem resolve_eq_ok_iff : resolve directory filename = .ok path ↔
    ∃ name, (ofPath filename).getLast? = some (.name name) ∧ path = joinPath directory name := by
  simp only [← lastName?_eq_some_iff, resolve]
  cases lastName? filename with
  | none => simp
  | some name => simp [eq_comm]

theorem resolve_eq_error_iff {fault : HostFault} : resolve directory filename = .error fault ↔
    fault = .invalidFileName filename ∧
      ((∀ name, .name name ∉ ofPath filename) ∨ (ofPath filename).getLast? = some .above) := by
  have hnone : lastName? filename = none ↔
      (∀ name, .name name ∉ ofPath filename) ∨ (ofPath filename).getLast? = some .above := by
    rw [Option.eq_none_iff_forall_ne_some]
    simp only [ne_eq, lastName?_eq_some_iff]
    constructor
    · exact names_or_above
    · rintro (hnames | habove) name hlast
      · exact hnames name (List.mem_of_getLast? hlast)
      · rw [habove] at hlast
        cases hlast
  rw [resolve, ← hnone]
  cases lastName? filename with
  | none => simp [eq_comm]
  | some name => simp

theorem prefix_joinPath (directory name : Text) : directory <+: joinPath directory name := by
  rw [joinPath]
  split
  · exact List.prefix_append _ _
  · exact List.prefix_append _ _

/-- A save puts the text into one file, directly in the save directory. -/
theorem exists_of_saved (h : c.saved text filename = .ok files) : ∃ made place name,
    (ofPath filename).getLast? = some (.name name) ∧
      c.files.makeDirectory c.saveDirectory = .ok made ∧
        made.locateDirectory c.saveDirectory = .ok place ∧
          files = { made with
            files := (place ++ [name], text) ::
              c.files.files.filter fun file => file.1 ≠ place ++ [name] } := by
  obtain ⟨path, hresolve, h⟩ := Files.bind_eq_ok_iff.1 h
  obtain ⟨name, hlast, rfl⟩ := resolve_eq_ok_iff.1 hresolve
  have hname := isFileName_of_mem (List.mem_of_getLast? hlast)
  split at h
  · cases h
  · next made hmade =>
    split at h
    · cases h
    · next written hwrite =>
      cases h
      obtain ⟨written, hlocate, hwrite⟩ := Files.bind_eq_ok_iff.1 hwrite
      rw [made.locate_joinPath hname] at hlocate
      obtain ⟨place, hplace, hstep⟩ := Files.bind_eq_ok_iff.1 hlocate
      obtain ⟨-, -, rfl⟩ := (Files.step_eq_ok_iff hname).1 hstep
      refine ⟨made, place, name, hlast, hmade, hplace, ?_⟩
      rw [← (Files.makeDirectory_keeps hmade).1]
      split at hwrite
      · cases hwrite
      · cases hwrite
        rfl

/-- Whatever the save directory is and whatever name is asked for: the path of the file is that of
the directory with one component more, which is the name at the end of the path asked for, and a
path that has no names or ends in two points is refused. A text that is saved is put into one file,
directly in the place that the save directory leads to, and no other file changes. -/
theorem saves_stay_in_directory (c : Console) (text filename : Text) :
    (∀ path, resolve c.saveDirectory filename = .ok path → ∃ name, IsFileName name ∧
      (ofPath filename).getLast? = some (.name name) ∧ c.saveDirectory <+: path ∧
        ofPath path = ofPath c.saveDirectory ++ [.name name]) ∧
    (∀ fault, resolve c.saveDirectory filename = .error fault ↔
      fault = .invalidFileName filename ∧
        ((∀ name, .name name ∉ ofPath filename) ∨ (ofPath filename).getLast? = some .above)) ∧
    ∀ files, c.saved text filename = .ok files → ∃ made place name,
      (ofPath filename).getLast? = some (.name name) ∧
        c.files.makeDirectory c.saveDirectory = .ok made ∧
          made.locateDirectory c.saveDirectory = .ok place ∧
            files = { made with
              files := (place ++ [name], text) ::
                c.files.files.filter fun file => file.1 ≠ place ++ [name] } := by
  refine ⟨fun path hpath => ?_, fun fault => resolve_eq_error_iff, fun files => exists_of_saved⟩
  obtain ⟨name, hlast, rfl⟩ := resolve_eq_ok_iff.1 hpath
  have hname := isFileName_of_mem (List.mem_of_getLast? hlast)
  exact ⟨name, hname, hlast, prefix_joinPath _ _, ofPath_joinPath hname⟩

/-- A path that climbs out of a directory and ends in a name is cut down to the name, and one that
climbs only is refused. -/
theorem saves_stay_in_directory_climbing :
    resolve "/tmp/out/".toList "../../etc/passwd/.".toList = .ok "/tmp/out/passwd".toList ∧
      (∃ name, IsFileName name ∧
        (ofPath "../../etc/passwd/.".toList).getLast? = some (.name name) ∧
          "/tmp/out/".toList <+: "/tmp/out/passwd".toList ∧
            ofPath "/tmp/out/passwd".toList = ofPath "/tmp/out/".toList ++ [.name name]) ∧
      resolve "/tmp/out/".toList "etc/..".toList = .error (.invalidFileName "etc/..".toList) := by
  have hname : resolve "/tmp/out/".toList "../../etc/passwd/.".toList =
      .ok "/tmp/out/passwd".toList := by decide
  have hclimb : (ofPath "etc/..".toList).getLast? = some .above := by decide
  have hstays := saves_stay_in_directory { saveDirectory := "/tmp/out/".toList } []
  exact ⟨hname, (hstays "../../etc/passwd/.".toList).1 _ hname,
    ((hstays "etc/..".toList).2.1 _).2 ⟨rfl, .inr hclimb⟩⟩

end Console

end Grimoire
