import Grimoire.Calendar.TimePattern
import Grimoire.Proofs.Digits
import Grimoire.Proofs.Replacements
import Mathlib.Data.List.Count
import Mathlib.Logic.Function.Basic

/-!
# Time patterns taken apart

A pattern consists of tokens and of characters that stand for themselves. A token repeats one letter
and no two tokens share theirs, so the tokens of a pattern are found from left to right in one way.
Reading takes a pattern apart like that. Writing replaces one kind of token after the other in the
whole text; since no field is written with a letter of a token, what has been written is never taken
for a token later on, and the result is the pattern with all its tokens replaced at once.
-/

namespace Grimoire

namespace TimeField

variable {f g : TimeField}

/-- The letter that the token of a field repeats. -/
def letter : TimeField → Char
  | year => 'Y'
  | month => 'M'
  | day => 'D'
  | hour => 'H'
  | minute => 'm'
  | second => 's'

theorem letter_inj (h : f.letter = g.letter) : f = g := by
  cases f <;> cases g <;> first | rfl | exact absurd h (by decide)

theorem token_eq_replicate (f : TimeField) :
    f.token = List.replicate f.token.length f.letter := by
  cases f <;> rfl

theorem exists_token_eq (f : TimeField) : ∃ t, f.token = f.letter :: t := by
  cases f <;> exact ⟨_, rfl⟩

theorem token_ne_nil (f : TimeField) : f.token ≠ [] := by
  cases f <;> decide

theorem letter_not_mem_token (h : f ≠ g) : g.letter ∉ f.token := by
  intro hmem
  rw [token_eq_replicate] at hmem
  exact h (letter_inj (List.mem_replicate.1 hmem).2.symm)

theorem mem_all (f : TimeField) : f ∈ all := by
  cases f <;> decide

/-- Where the token of a field begins, no other token does. -/
theorem eq_of_token_prefix {s : Text} (h : g.token <+: f.token ++ s) : g = f := by
  obtain ⟨t, ht⟩ := exists_token_eq f
  obtain ⟨u, hu⟩ := exists_token_eq g
  obtain ⟨v, hv⟩ := h
  rw [ht, hu] at hv
  exact letter_inj (List.cons.inj hv).1

end TimeField

/-! ## The pieces of a pattern -/

/-- The text of a piece when each field has a text. -/
def TimePiece.spell (texts : TimeField → Text) : TimePiece → Text
  | .field f => texts f
  | .literal c => [c]

namespace TimePattern

open TimeField

/-- The text of pieces one after the other. -/
def spell (texts : TimeField → Text) (pieces : List TimePiece) : Text :=
  pieces.flatMap (TimePiece.spell texts)

/-- The pieces of a text are its tokens and, where no token begins, its characters. -/
inductive Divides : List TimePiece → Text → Prop
  | nil : Divides [] []
  | field (f : TimeField) {pieces : List TimePiece} {s : Text} :
    Divides pieces s → Divides (.field f :: pieces) (f.token ++ s)
  | literal {c : Char} {pieces : List TimePiece} {s : Text} :
    (∀ f : TimeField, ¬ f.token <+: c :: s) → Divides pieces s →
      Divides (.literal c :: pieces) (c :: s)

variable {pieces : List TimePiece} {s : Text} {g : TimeField} {texts : TimeField → Text}

theorem spell_field (texts : TimeField → Text) (f : TimeField) (pieces : List TimePiece) :
    spell texts (.field f :: pieces) = texts f ++ spell texts pieces := rfl

theorem spell_literal (texts : TimeField → Text) (c : Char) (pieces : List TimePiece) :
    spell texts (.literal c :: pieces) = c :: spell texts pieces := rfl

theorem spell_congr {texts' : TimeField → Text}
    (h : ∀ f, .field f ∈ pieces → texts f = texts' f) :
    spell texts pieces = spell texts' pieces := by
  refine List.flatMap_congr fun piece hpiece => ?_
  cases piece with
  | field f => exact h f hpiece
  | literal c => rfl

/-- Every text has its pieces. -/
theorem exists_divides (s : Text) : ∃ pieces, Divides pieces s := by
  induction hn : s.length using Nat.strongRecOn generalizing s with
  | ind n ih =>
    cases s with
    | nil => exact ⟨[], .nil⟩
    | cons c rest =>
      by_cases htoken : ∃ f : TimeField, f.token <+: c :: rest
      · obtain ⟨f, left, hleft⟩ := htoken
        have hpos := List.length_pos_iff.2 (token_ne_nil f)
        have hlength := congrArg List.length hleft
        rw [List.length_append] at hlength
        obtain ⟨pieces, hpieces⟩ := ih left.length (by omega) left rfl
        exact ⟨.field f :: pieces, hleft ▸ .field f hpieces⟩
      · obtain ⟨pieces, hpieces⟩ := ih rest.length (by rw [← hn]; exact Nat.lt_succ_self _) rest rfl
        exact ⟨.literal c :: pieces, .literal (not_exists.1 htoken) hpieces⟩

theorem Divides.spell_token (h : Divides pieces s) : spell token pieces = s := by
  induction h with
  | nil => rfl
  | field f _ ih => rw [spell_field, ih]
  | literal _ _ ih => rw [spell_literal, ih]

/-- The occurrences of a token are the pieces that it makes. -/
theorem Divides.occurrences (h : Divides pieces s) (g : TimeField) :
    Text.occurrences g.token s = pieces.count (.field g) := by
  induction h with
  | nil => exact Text.occurrences_nil g.token
  | @field f pieces s _ ih =>
    by_cases hfg : f = g
    · subst hfg
      rw [Text.occurrences_append (token_ne_nil f), ih, List.count_cons_self]
    · obtain ⟨t, ht⟩ := exists_token_eq g
      have hnot := letter_not_mem_token hfg
      rw [List.count_cons_of_ne (by simpa using hfg), ← ih, ht,
        Text.occurrences_of_not_mem hnot]
  | literal hfree _ ih =>
    rw [Text.occurrences_cons (hfree g), ih, List.count_cons_of_ne (by simp)]

/-! ## Reading a pattern -/

/-- Each field has at most one piece. -/
def Once (pieces : List TimePiece) : Prop :=
  ∀ f, pieces.count (.field f) ≤ 1

theorem Once.tail {piece : TimePiece} (h : Once (piece :: pieces)) : Once pieces :=
  fun f => Nat.le_trans List.count_le_count_cons (h f)

theorem Once.not_mem {f : TimeField} (h : Once (.field f :: pieces)) :
    .field f ∉ pieces := by
  have hcount := h f
  rw [List.count_cons_self] at hcount
  exact List.count_eq_zero.1 (by omega)

theorem piecesFrom_skip (seen : List TimeField) (t s : Text) :
    piecesFrom seen t.length (t ++ s) = piecesFrom seen 0 s := by
  induction t with
  | nil => rfl
  | cons c t ih => exact ih

/-- Where the token of a field begins that has had none, the field is found. -/
theorem find?_field {seen : List TimeField} {f : TimeField} (hseen : f ∉ seen) (s : Text) :
    TimeField.all.find? (fun g => g.token.isPrefixOf (f.token ++ s) && !seen.contains g) =
      some f := by
  have hfound : (f.token.isPrefixOf (f.token ++ s) && !seen.contains f) = true := by
    simp [hseen]
  have honly : ∀ g, (g.token.isPrefixOf (f.token ++ s) && !seen.contains g) = true → g = f := by
    intro g hg
    rw [Bool.and_eq_true, List.isPrefixOf_iff_prefix] at hg
    exact eq_of_token_prefix hg.1
  cases hfind : TimeField.all.find? _ with
  | none => exact absurd hfound (List.find?_eq_none.1 hfind f (mem_all f))
  | some g =>
    have hg := List.find?_some hfind
    rw [honly g hg]

theorem find?_literal {seen : List TimeField} (h : ∀ f : TimeField, ¬ f.token <+: s) :
    TimeField.all.find? (fun g => g.token.isPrefixOf s && !seen.contains g) = none := by
  rw [List.find?_eq_none]
  intro g _ hg
  rw [Bool.and_eq_true, List.isPrefixOf_iff_prefix] at hg
  exact h g hg.1

/-- A pattern is read into its pieces as long as no token comes twice. -/
theorem piecesFrom_eq (h : Divides pieces s) (honce : Once pieces) {seen : List TimeField}
    (hseen : ∀ f ∈ seen, .field f ∉ pieces) : piecesFrom seen 0 s = pieces := by
  induction h generalizing seen with
  | nil => rfl
  | @field f pieces s _ ih =>
    have hnew : f ∉ seen := fun hf => hseen f hf List.mem_cons_self
    have hrest : piecesFrom (f :: seen) 0 s = pieces := by
      refine ih honce.tail fun g hg => ?_
      rcases List.mem_cons.1 hg with rfl | hg
      · exact honce.not_mem
      · exact fun hmem => hseen g hg (List.mem_cons_of_mem _ hmem)
    obtain ⟨t, ht⟩ := exists_token_eq f
    have hfind := find?_field hnew s
    rw [ht, List.cons_append] at hfind
    rw [ht, List.cons_append, piecesFrom, hfind]
    simp only [ht, List.length_cons, Nat.add_sub_cancel, piecesFrom_skip, hrest]
  | literal hfree _ ih =>
    rw [piecesFrom, find?_literal hfree]
    simp only [ih honce.tail fun f hf hmem => hseen f hf (List.mem_cons_of_mem _ hmem)]

theorem once_of_occurrences (h : Divides pieces s)
    (honce : ∀ f : TimeField, Text.occurrences f.token s ≤ 1) : Once pieces := by
  intro f
  rw [← h.occurrences f]
  exact honce f

/-- A pattern in which no token comes twice is divided into the pieces that are read. -/
theorem divides_compile (honce : ∀ f : TimeField, Text.occurrences f.token s ≤ 1) :
    Divides (compile s).pieces s ∧ Once (compile s).pieces := by
  obtain ⟨pieces, hpieces⟩ := exists_divides s
  have hpiecesOnce := once_of_occurrences hpieces honce
  have hcompile : (compile s).pieces = pieces :=
    piecesFrom_eq hpieces hpiecesOnce fun f hf => absurd hf List.not_mem_nil
  rw [hcompile]
  exact ⟨hpieces, hpiecesOnce⟩

/-! ## Writing under a pattern -/

/-- A run of the letter of a token at the start of written text was there before. -/
theorem Divides.run_of_spell (h : Divides pieces s) (hg : texts g = g.token)
    (hother : ∀ f, f ≠ g → texts f ≠ [] ∧ g.letter ∉ texts f) {n : Nat}
    (hrun : List.replicate n g.letter <+: spell texts pieces) :
    List.replicate n g.letter <+: s := by
  induction h generalizing n with
  | nil => exact hrun
  | @field f pieces s _ ih =>
    rw [spell_field] at hrun
    by_cases hfg : f = g
    · subst hfg
      rw [hg, token_eq_replicate] at hrun
      rw [token_eq_replicate]
      rcases Nat.le_total n f.token.length with hle | hle
      · obtain ⟨k, hk⟩ := Nat.exists_eq_add_of_le hle
        rw [hk, List.replicate_add, List.append_assoc]
        exact List.prefix_append _ _
      · obtain ⟨k, rfl⟩ := Nat.exists_eq_add_of_le hle
        rw [List.replicate_add, List.prefix_append_right_inj] at hrun ⊢
        exact ih hrun
    · -- another field is not written with the letter, so the run is empty
      obtain ⟨hne, hnot⟩ := hother f hfg
      cases n with
      | zero => exact List.nil_prefix
      | succ n =>
        cases hf : texts f with
        | nil => exact absurd hf hne
        | cons d t =>
          rw [hf, List.mem_cons, not_or] at hnot
          rw [hf, List.replicate_succ, List.cons_append, List.cons_prefix_cons] at hrun
          exact absurd hrun.1 hnot.1
  | literal _ _ ih =>
    cases n with
    | zero => exact List.nil_prefix
    | succ n =>
      rw [spell_literal, List.replicate_succ, List.cons_prefix_cons] at hrun
      rw [List.replicate_succ, List.cons_prefix_cons]
      exact ⟨hrun.1, ih hrun.2⟩

/-- Replacing a token changes the text of its field and nothing else. -/
theorem Divides.replace_spell (h : Divides pieces s) (hg : texts g = g.token)
    (hother : ∀ f, f ≠ g → texts f ≠ [] ∧ g.letter ∉ texts f) (new : Text) :
    Text.replace g.token new (spell texts pieces) = spell (Function.update texts g new) pieces := by
  induction h with
  | nil => exact Text.replace_nil (token_ne_nil g) new
  | @field f pieces s _ ih =>
    rw [spell_field, spell_field]
    by_cases hfg : f = g
    · subst hfg
      rw [hg, Text.replace_append (token_ne_nil f), ih, Function.update_self]
    · obtain ⟨t, ht⟩ := exists_token_eq g
      rw [Function.update_of_ne hfg, ← ih, ht, Text.replace_of_not_mem new (hother f hfg).2]
  | @literal c pieces s hfree hpieces ih =>
    have hfree' : ¬ g.token <+: c :: spell texts pieces := by
      intro hstart
      obtain ⟨n, hn⟩ : ∃ n, g.token.length = n + 1 :=
        Nat.exists_eq_add_one.2 (List.length_pos_iff.2 (token_ne_nil g))
      rw [token_eq_replicate, hn, List.replicate_succ, List.cons_prefix_cons] at hstart
      apply hfree g
      rw [token_eq_replicate, hn, List.replicate_succ, List.cons_prefix_cons]
      exact ⟨hstart.1, hpieces.run_of_spell hg hother hstart.2⟩
    rw [spell_literal, spell_literal, Text.replace_cons (token_ne_nil g) new hfree', ih]

/-- Replacing the tokens of several fields one after the other changes the texts of these fields. -/
theorem Divides.foldl_replace (h : Divides pieces s) {new : TimeField → Text}
    (hnew : ∀ f g : TimeField, new f ≠ [] ∧ g.letter ∉ new f) {fields : List TimeField}
    (hnodup : fields.Nodup) (hfields : ∀ f ∈ fields, texts f = f.token)
    (hother : ∀ f g, f ≠ g → texts f ≠ [] ∧ g.letter ∉ texts f) :
    fields.foldl (fun text f => Text.replace f.token (new f) text) (spell texts pieces) =
      spell (fun f => if f ∈ fields then new f else texts f) pieces := by
  induction fields generalizing texts with
  | nil => simp
  | cons g fields ih =>
    rw [List.nodup_cons] at hnodup
    have hg := hfields g List.mem_cons_self
    rw [List.foldl_cons, h.replace_spell hg (fun f hf => hother f g hf) (new g), ih hnodup.2]
    · refine spell_congr fun f _ => ?_
      by_cases hfg : f = g
      · subst hfg
        simp [hnodup.1]
      · simp [hfg]
    · intro f hf
      have hfg : f ≠ g := by
        rintro rfl
        exact hnodup.1 hf
      rw [Function.update_of_ne hfg]
      exact hfields f (List.mem_cons_of_mem _ hf)
    · intro f k hfk
      by_cases hfg : f = g
      · subst hfg
        rw [Function.update_self]
        exact hnew f k
      · rw [Function.update_of_ne hfg]
        exact hother f k hfk

end TimePattern

/-! ## The texts of fields -/

namespace TimeField

variable {t : Timestamp} {c : Char}

/-- The number of a field. -/
def value (t : Timestamp) : TimeField → Int
  | year => t.date.year
  | month => t.date.month
  | day => t.date.day
  | hour => t.time.hour
  | minute => t.time.minute
  | second => t.time.second

theorem write_ne_nil (t : Timestamp) (f : TimeField) : f.write t ≠ [] := by
  have htwo : ∀ n, Timestamp.twoDigits n ≠ [] := by
    intro n
    rw [Timestamp.twoDigits, Text.padZeros]
    exact List.append_ne_nil_of_right_ne_nil _ (Text.ofNat_ne_nil n)
  cases f with
  | year =>
    rw [write]
    cases t.date.year with
    | ofNat n => exact Text.ofNat_ne_nil n
    | negSucc n => exact List.cons_ne_nil _ _
  | _ => exact htwo _

/-- A field is written with digits and perhaps a sign. -/
theorem isDigit_of_mem_write {f : TimeField} (hc : c ∈ f.write t) : c.isDigit = true ∨ c = '-' := by
  have htwo : ∀ n, c ∈ Timestamp.twoDigits n → c.isDigit = true ∨ c = '-' := fun n hc =>
    .inl (Text.isDigit_of_mem_padZeros (fun d hd => Text.isDigit_of_mem_ofNat hd) hc)
  cases f with
  | year =>
    rw [write] at hc
    cases hyear : t.date.year with
    | ofNat n =>
      rw [hyear] at hc
      exact .inl (Text.isDigit_of_mem_ofNat hc)
    | negSucc n =>
      rw [hyear] at hc
      rcases List.mem_cons.1 hc with rfl | hc
      · exact .inr rfl
      · exact .inl (Text.isDigit_of_mem_ofNat hc)
  | _ => exact htwo _ hc

theorem letter_not_mem_write (f g : TimeField) : g.letter ∉ f.write t := by
  intro hmem
  have hletter : g.letter.isDigit = false ∧ g.letter ≠ '-' := by cases g <;> decide
  rcases isDigit_of_mem_write hmem with hdigit | hminus
  · rw [hletter.1] at hdigit
    cases hdigit
  · exact hletter.2 hminus

end TimeField

/-- A timestamp is written under a pattern by writing its fields in the places of their tokens,
however often a token comes and whatever stands around it. -/
theorem TimePattern.Divides.format_eq {pieces : List TimePiece} {pattern : Text}
    (h : Divides pieces pattern) (t : Timestamp) :
    t.format pattern = spell (TimeField.write t) pieces := by
  have hnodup : TimeField.all.Nodup := by decide
  have hwrite : ∀ f g : TimeField, f.write t ≠ [] ∧ g.letter ∉ f.write t := fun f g =>
    ⟨TimeField.write_ne_nil t f, TimeField.letter_not_mem_write f g⟩
  have htoken : ∀ f g : TimeField, f ≠ g → f.token ≠ [] ∧ g.letter ∉ f.token := fun f g hfg =>
    ⟨TimeField.token_ne_nil f, TimeField.letter_not_mem_token hfg⟩
  have hfold := h.foldl_replace hwrite hnodup (fun _ _ => rfl) htoken
  rw [h.spell_token] at hfold
  rw [Timestamp.format, hfold]
  exact spell_congr fun f _ => if_pos (TimeField.mem_all f)

end Grimoire
