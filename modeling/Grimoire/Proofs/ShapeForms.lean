import Grimoire.Proofs.Guards
import Grimoire.Proofs.Lines
import Grimoire.Proofs.Shapely
import Grimoire.Proofs.Unambiguous

/-!
# The grammar of shapes

A shape is written as a keyword, its parameters, an arrow and a body. One parameter stands by itself
behind blanks, or parameters stand in parentheses with commas between them, where blank pieces do
not count. The two patterns of the reader take just the texts that are written so; a text is written
so in only one way, up to the blanks around the pieces and the body. Of the texts that no earlier
form takes, those that are evaluated to a shape with parameters are the ones written with
identifiers and not too many of them, and those in parentheses around a text that is evaluated to
the shape.
-/

namespace Grimoire

namespace Text

variable {s p a b body body' : Text} {parameters parameters' : List Text}
  {named named' : Text → Prop} {f : Shape} {g : Groups}

/-! ## Lists of parameters -/

/-- The pieces between the commas of a list, without the blank ones. -/
def listed (inner : Text) : List Text :=
  ((splitOn ',' inner).map trim).filter (!·.isEmpty)

/-- Blanks around a list are blanks around its pieces. -/
theorem map_trim_splitOn_blank (ha : Blank a) (hb : Blank b) (s : Text) :
    (splitOn ',' (a ++ (s ++ b))).map trim = (splitOn ',' s).map trim := by
  have hcomma : ∀ {g : Text}, Blank g → ',' ∉ g := fun hg hin =>
    absurd (hg ',' hin) (by decide)
  have hother : ∀ {u : Text}, ',' ∉ u → ∀ c ∈ u, c ≠ ',' := fun hu c hc =>
    ne_of_mem_of_not_mem hc hu
  -- the blanks before the list are counted to the first piece, and those behind it to the last
  induction hlength : s.length using Nat.strongRecOn generalizing a s with
  | _ length ih =>
    by_cases hs : ',' ∈ s
    · obtain ⟨x, y, rfl, hx⟩ := List.eq_append_cons_of_mem hs
      have hshort : y.length < length := by
        rw [← hlength, List.length_append, List.length_cons]
        omega
      have hrest := ih y.length hshort (a := []) blank_nil y rfl
      have hfront : ',' ∉ a ++ x := by
        rw [List.mem_append, not_or]
        exact ⟨hcomma ha, hx⟩
      have hsplit : a ++ (x ++ ',' :: y ++ b) = (a ++ x) ++ ',' :: ([] ++ (y ++ b)) := by simp
      rw [hsplit, splitOn_append_cons (hother hfront), splitOn_append_cons (hother hx),
        List.map_cons, List.map_cons, hrest, trim_blank_append ha]
    · have hall : ',' ∉ a ++ (s ++ b) := by
        rw [List.mem_append, List.mem_append, not_or, not_or]
        exact ⟨hcomma ha, hs, hcomma hb⟩
      rw [splitOn_eq_singleton (hother hall), splitOn_eq_singleton (hother hs), List.map_singleton,
        List.map_singleton, trim_blank_append ha, trim_append_blank hb]

theorem listed_blank (ha : Blank a) (hb : Blank b) (s : Text) :
    listed (a ++ (s ++ b)) = listed s := by
  rw [listed, listed, map_trim_splitOn_blank ha hb]

/-! ## Shapes as they are written -/

/-- A text is written as a shape with these parameters and this body, where a parameter by itself
has to be `named`. -/
inductive WrittenShape (named : Text → Prop) (s : Text) : List Text → Text → Prop
  | single {keyword gap p space rest : Text}
    (text : s = keyword ++ (gap ++ (p ++ (space ++ '=' :: '>' :: rest))))
    (word : keyword.map foldCase = "Shape".toList.map foldCase) (apart : gap ≠ [] ∧ Blank gap)
    (name : named p) (blank : Blank space) : WrittenShape named s [p] rest.trim
  | list {keyword gap inner space rest : Text}
    (text : s = keyword ++ (gap ++ '(' :: (inner ++ ')' :: (space ++ '=' :: '>' :: rest))))
    (word : keyword.map foldCase = "Shape".toList.map foldCase) (blank : Blank gap)
    (closed : ')' ∉ inner) (blank' : Blank space) :
    WrittenShape named s (listed inner) rest.trim

/-- A text that can be told from what follows it as long as that is no part of a word. -/
def IsWordText (p : Text) : Prop :=
  p ≠ [] ∧ ∀ c ∈ p, isWord c = true

theorem WrittenShape.mono (h : WrittenShape named s parameters body)
    (hnamed : ∀ p, named p → named' p) : WrittenShape named' s parameters body := by
  cases h with
  | single text word apart name blank => exact .single text word apart (hnamed _ name) blank
  | list text word blank closed blank' => exact .list text word blank closed blank'

theorem isWordText_of_isIdentifier (h : p.isIdentifier = true) : IsWordText p :=
  ⟨Symbol.ne_nil_of_isIdentifier h, fun _ hc => isWord_of_isIdentifier h hc⟩

/-- Words can be told from what follows them. -/
theorem word_append_inj {c d : Char} {u v : Text} (ha : ∀ c ∈ a, isWord c = true)
    (hb : ∀ c ∈ b, isWord c = true) (hc : isWord c = false) (hd : isWord d = false)
    (h : a ++ c :: u = b ++ d :: v) : a = b ∧ c :: u = d :: v := by
  have front : ∀ {a u : Text} {c : Char}, (∀ c ∈ a, isWord c = true) → isWord c = false →
      (a ++ c :: u).takeWhile isWord = a := by
    intro a u c ha hc
    rw [List.takeWhile_append_of_pos ha, List.takeWhile_cons_of_neg (by simp [hc]), List.append_nil]
  obtain rfl : a = b := by rw [← front ha hc, h, front hb hd]
  exact ⟨rfl, List.append_cancel_left h⟩

/-- Behind its keyword a text is cut in only one way. -/
theorem keyword_append_inj {keyword keyword' : Text}
    (h : keyword.map foldCase = "Shape".toList.map foldCase)
    (h' : keyword'.map foldCase = "Shape".toList.map foldCase)
    (heq : keyword ++ a = keyword' ++ b) : a = b := by
  have hlength : keyword.length = keyword'.length := by
    simpa using congrArg List.length (h.trans h'.symm)
  exact (List.append_inj heq hlength).2

theorem head_mark {c : Char} (hc : isBlank c = false) (u : Text) :
    ∃ d ∈ (c :: u).head?, isBlank d = false :=
  ⟨c, rfl, hc⟩

/-- The arrow is found in only one place behind the blanks before it. -/
theorem arrow_append_inj {space space' rest rest' : Text} (h : Blank space) (h' : Blank space')
    (heq : space ++ '=' :: '>' :: rest = space' ++ '=' :: '>' :: rest') : rest = rest' := by
  have hmark := head_mark (c := '=') (by decide)
  have hrest := (blank_append_inj h h' (hmark _) (hmark _) heq).2
  exact (List.cons.inj (List.cons.inj hrest).2).2

/-- The parentheses of a list are found in only one place. -/
theorem list_append_inj {keyword keyword' gap gap' inner inner' : Text}
    (hk : keyword.map foldCase = "Shape".toList.map foldCase)
    (hk' : keyword'.map foldCase = "Shape".toList.map foldCase) (hg : Blank gap) (hg' : Blank gap')
    (hi : ')' ∉ inner) (hi' : ')' ∉ inner')
    (heq : keyword ++ (gap ++ '(' :: (inner ++ ')' :: a)) =
      keyword' ++ (gap' ++ '(' :: (inner' ++ ')' :: b))) : inner = inner' ∧ a = b := by
  have hmark := head_mark (c := '(') (by decide)
  have hgap := keyword_append_inj hk hk' heq
  have hinner := (blank_append_inj hg hg' (hmark _) (hmark _) hgap).2
  exact mark_append_inj hi hi' (List.cons.inj hinner).2

/-- What stands before an arrow and the blanks before it is no part of a word. -/
theorem exists_cons_of_arrow {space : Text} (h : Blank space) (rest : Text) :
    ∃ c u, space ++ '=' :: '>' :: rest = c :: u ∧ isWord c = false := by
  cases space with
  | nil => exact ⟨'=', _, rfl, by decide⟩
  | cons c space =>
    refine ⟨c, _, rfl, ?_⟩
    by_contra hword
    have hplain := isBlank_of_isPlain (isPlain_of_isWord (eq_true_of_ne_false hword))
    rw [h c List.mem_cons_self] at hplain
    cases hplain

/-- A text is written as a shape in only one way. -/
theorem WrittenShape.unique (h : WrittenShape IsWordText s parameters body)
    (h' : WrittenShape IsWordText s parameters' body') :
    parameters = parameters' ∧ body = body' := by
  have hbracket := head_mark (c := '(') (by decide)
  have hhead : ∀ {p : Text}, IsWordText p → ∀ u, ∃ c ∈ (p ++ u).head?, isBlank c = false :=
    fun hp u => (Symbol.solid_of_word hp.1 hp.2).firm.head_append u
  have hmixed : ∀ {p u v : Text}, IsWordText p → p ++ u ≠ '(' :: v := by
    rintro p u v ⟨hne, hp⟩ heq
    obtain ⟨c, p, rfl⟩ := List.exists_cons_of_ne_nil hne
    obtain rfl := (List.cons.inj heq).1
    exact absurd (hp '(' List.mem_cons_self) (by decide)
  cases h with
  | single text word apart name blank =>
    cases h' with
    | single text' word' apart' name' blank' =>
      have hgap := keyword_append_inj word word' (text.symm.trans text')
      obtain ⟨-, hname⟩ := blank_append_inj apart.2 apart'.2 (hhead name _) (hhead name' _) hgap
      obtain ⟨c, u, hu, hc⟩ := exists_cons_of_arrow blank _
      obtain ⟨d, v, hv, hd⟩ := exists_cons_of_arrow blank' _
      rw [hu, hv] at hname
      obtain ⟨rfl, hrest⟩ := word_append_inj name.2 name'.2 hc hd hname
      rw [← hu, ← hv] at hrest
      rw [arrow_append_inj blank blank' hrest]
      exact ⟨rfl, rfl⟩
    | list text' word' gap' closed' blank' =>
      have hgap := keyword_append_inj word word' (text.symm.trans text')
      obtain ⟨-, hname⟩ := blank_append_inj apart.2 gap' (hhead name _) (hbracket _) hgap
      exact absurd hname (hmixed name)
  | list text word gap closed blank =>
    cases h' with
    | single text' word' apart' name' blank' =>
      have hgap := keyword_append_inj word word' (text.symm.trans text')
      obtain ⟨-, hname⟩ := blank_append_inj gap apart'.2 (hbracket _) (hhead name' _) hgap
      exact absurd hname.symm (hmixed name')
    | list text' word' gap' closed' blank' =>
      obtain ⟨rfl, hrest⟩ :=
        list_append_inj word word' gap gap' closed closed' (text.symm.trans text')
      rw [arrow_append_inj blank blank' hrest]
      exact ⟨rfl, rfl⟩

/-! ## What the patterns take -/

/-- Of a trimmed text no end is blank. -/
theorem body_ne_nil (hs : s.trim = s) (hb : b ≠ []) (a : Text) (h : s = a ++ b) :
    b.trim ≠ [] := by
  have hne : s ≠ [] := by
    rw [h]
    exact List.append_ne_nil_of_right_ne_nil a hb
  obtain ⟨c, hc, hlast⟩ := (firm_of_trim hne hs).last
  rw [h, List.getLast?_append_of_ne_nil _ hb] at hc
  intro htrim
  obtain ⟨x, y, hsplit, hx, hy⟩ := exists_trim b
  rw [htrim, List.nil_append] at hsplit
  have hblank := (hx.append hy) c (hsplit ▸ List.mem_of_mem_getLast? hc)
  rw [hlast] at hblank
  cases hblank

theorem steps_shapeList : shapeListPattern.steps =
    [.keyword "Shape", .space, .keyword "(", .space, .capture 1 (.run (.except ')') 1 .shortest),
      .space, .keyword ")", .space, .keyword "=>", .space, .longLines 2] := rfl

theorem steps_shapeSingle : shapeSinglePattern.steps =
    [.keyword "Shape", .gap, .capture 1 .identifier, .space, .keyword "=>", .space,
      .longLines 2] := rfl

/-- A text that the pattern of parameters in parentheses takes is written so. -/
theorem written_of_list (hs : s.trim = s) (h : shapeListPattern.match? s = some g) :
    WrittenShape named s (listed (g.text 1)) (g.text 2).trim ∧ (g.text 2).trim ≠ [] := by
  obtain ⟨notes, htakes, hslots⟩ := Pattern.exists_takes_of_match? h
  rw [Pattern.takes_iff_steps, steps_shapeList] at htakes
  obtain ⟨k, _, rfl, hk, h₁⟩ := Pattern.takesAll_word_cons.1 htakes
  obtain ⟨g₁, _, rfl, ⟨-, hg₁⟩, h₂⟩ := Pattern.takesAll_run_cons.1 h₁
  obtain ⟨o, _, rfl, ho, h₃⟩ := Pattern.takesAll_word_cons.1 h₂
  obtain ⟨g₂, _, rfl, ⟨-, hg₂⟩, h₄⟩ := Pattern.takesAll_run_cons.1 h₃
  obtain ⟨x, _, _, _, rfl, rfl, ⟨⟨-, hx⟩, rfl⟩, h₅⟩ := Pattern.takesAll_capture_cons.1 h₄
  obtain ⟨g₃, _, rfl, ⟨-, hg₃⟩, h₆⟩ := Pattern.takesAll_run_cons.1 h₅
  obtain ⟨c, _, rfl, hc, h₇⟩ := Pattern.takesAll_word_cons.1 h₆
  obtain ⟨g₄, _, rfl, ⟨-, hg₄⟩, h₈⟩ := Pattern.takesAll_run_cons.1 h₇
  obtain ⟨e, _, rfl, he, h₉⟩ := Pattern.takesAll_word_cons.1 h₈
  obtain ⟨g₅, _, rfl, ⟨-, hg₅⟩, h₁₀⟩ := Pattern.takesAll_run_cons.1 h₉
  obtain ⟨y, _, _, _, rfl, rfl, ⟨⟨hy, -⟩, rfl⟩, rfl, rfl⟩ := Pattern.takesAll_capture_cons.1 h₁₀
  obtain rfl : o = ['('] := eq_of_map_foldCase_eq (by decide) ho
  obtain rfl : c = [')'] := eq_of_map_foldCase_eq (by decide) hc
  obtain rfl : e = ['=', '>'] := eq_of_map_foldCase_eq (by decide) he
  have hfirst : g.text 1 = x := by rw [Groups.text, hslots]; rfl
  have hsecond : g.text 2 = y := by rw [Groups.text, hslots]; rfl
  have hclosed : ')' ∉ g₂ ++ (x ++ g₃) := by
    simp only [List.mem_append, not_or]
    exact ⟨fun hin => absurd (hg₂ _ hin) (by decide), fun hin => absurd (hx _ hin) (by decide),
      fun hin => absurd (hg₃ _ hin) (by decide)⟩
  have hbody : y.trim ≠ [] := by
    refine body_ne_nil hs (List.length_pos_iff.1 hy)
      (k ++ (g₁ ++ '(' :: (g₂ ++ (x ++ (g₃ ++ ')' :: (g₄ ++ '=' :: '>' :: g₅)))))) ?_
    simp
  rw [hfirst, hsecond]
  refine ⟨?_, hbody⟩
  rw [← listed_blank hg₂ hg₃ x, ← trim_blank_append hg₅ y]
  exact .list (by simp) hk hg₁ hclosed hg₄

/-- A text that the pattern of one parameter takes is written so. -/
theorem written_of_single (hs : s.trim = s) (h : shapeSinglePattern.match? s = some g) :
    IsWordText (g.text 1) ∧ (g.text 2).trim ≠ [] ∧ ∀ named : Text → Prop,
      named (g.text 1) → WrittenShape named s [g.text 1] (g.text 2).trim := by
  obtain ⟨notes, htakes, hslots⟩ := Pattern.exists_takes_of_match? h
  rw [Pattern.takes_iff_steps, steps_shapeSingle] at htakes
  obtain ⟨k, _, rfl, hk, h₁⟩ := Pattern.takesAll_word_cons.1 htakes
  obtain ⟨g₁, _, rfl, ⟨hlen, hg₁⟩, h₂⟩ := Pattern.takesAll_run_cons.1 h₁
  obtain ⟨x, _, _, _, rfl, rfl, hx, h₃⟩ := Pattern.takesAll_capture_cons.1 h₂
  obtain ⟨g₂, _, rfl, ⟨-, hg₂⟩, h₄⟩ := Pattern.takesAll_run_cons.1 h₃
  obtain ⟨e, _, rfl, he, h₅⟩ := Pattern.takesAll_word_cons.1 h₄
  obtain ⟨g₃, _, rfl, ⟨-, hg₃⟩, h₆⟩ := Pattern.takesAll_run_cons.1 h₅
  obtain ⟨y, _, _, _, rfl, rfl, ⟨⟨hy, -⟩, rfl⟩, rfl, rfl⟩ := Pattern.takesAll_capture_cons.1 h₆
  obtain rfl : e = ['=', '>'] := eq_of_map_foldCase_eq (by decide) he
  have hfirst : g.text 1 = x := by rw [Groups.text, hslots]; rfl
  have hsecond : g.text 2 = y := by rw [Groups.text, hslots]; rfl
  have hname : IsWordText x :=
    ⟨Pattern.ne_nil_of_occupies (p := .identifier) rfl hx,
      fun _ => Symbol.isWord_of_takes_identifier hx⟩
  have hbody : y.trim ≠ [] := by
    refine body_ne_nil hs (List.length_pos_iff.1 hy)
      (k ++ (g₁ ++ (x ++ (g₂ ++ '=' :: '>' :: g₃)))) ?_
    simp
  rw [hfirst, hsecond]
  refine ⟨hname, hbody, fun named hnamed => ?_⟩
  rw [← trim_blank_append hg₃ y]
  exact .single (by simp) hk ⟨List.length_pos_iff.1 hlen, hg₁⟩ hnamed hg₂

section Matches

variable {keyword gap inner space rest : Text}

/-- The pattern of parameters in parentheses takes what is written so. -/
theorem exists_match_list (word : keyword.map foldCase = "Shape".toList.map foldCase)
    (hgap : Blank gap) (hinner : inner ≠ []) (hclosed : ')' ∉ inner) (hspace : Blank space)
    (hrest : rest ≠ []) : ∃ g, shapeListPattern.match?
      (keyword ++ (gap ++ '(' :: (inner ++ ')' :: (space ++ '=' :: '>' :: rest)))) = some g := by
  have hmark : ∀ c ∈ inner, Charset.holds (.except ')') c = true := fun c hc =>
    bne_iff_ne.2 (ne_of_mem_of_not_mem hc hclosed)
  have hnone : 0 ≤ ([] : Text).length ∧ Blank [] := ⟨Nat.zero_le _, blank_nil⟩
  have htakes : Pattern.TakesAll shapeListPattern.steps
      (keyword ++ (gap ++ '(' :: (inner ++ ')' :: (space ++ '=' :: '>' :: rest))))
      [(2, rest), (1, inner)] := by
    rw [steps_shapeList]
    refine Pattern.takesAll_word_cons.2 ⟨keyword, _, rfl, word, ?_⟩
    refine Pattern.takesAll_run_cons.2 ⟨gap, _, rfl, ⟨Nat.zero_le _, hgap⟩, ?_⟩
    refine Pattern.takesAll_word_cons.2 ⟨['('], _, rfl, rfl, ?_⟩
    refine Pattern.takesAll_run_cons.2 ⟨[], _, rfl, hnone, ?_⟩
    refine Pattern.takesAll_capture_cons.2 ⟨inner, _, [], [(2, rest)], rfl, rfl,
      ⟨⟨List.length_pos_iff.2 hinner, hmark⟩, rfl⟩, ?_⟩
    refine Pattern.takesAll_run_cons.2 ⟨[], _, rfl, hnone, ?_⟩
    refine Pattern.takesAll_word_cons.2 ⟨[')'], _, rfl, rfl, ?_⟩
    refine Pattern.takesAll_run_cons.2 ⟨space, _, rfl, ⟨Nat.zero_le _, hspace⟩, ?_⟩
    refine Pattern.takesAll_word_cons.2 ⟨['=', '>'], _, rfl, rfl, ?_⟩
    refine Pattern.takesAll_run_cons.2 ⟨[], _, rfl, hnone, ?_⟩
    exact Pattern.takesAll_singleton.2
      ⟨[], ⟨⟨List.length_pos_iff.2 hrest, fun _ _ => rfl⟩, rfl⟩, rfl⟩
  exact Pattern.exists_match?_of_takes (by decide) (Pattern.takes_iff_steps.2 htakes)

/-- The pattern of one parameter takes what is written so. -/
theorem exists_match_single {p : Text} (word : keyword.map foldCase = "Shape".toList.map foldCase)
    (hgap : gap ≠ [] ∧ Blank gap) (hname : p.isIdentifier = true) (hspace : Blank space)
    (hrest : rest ≠ []) : ∃ g, shapeSinglePattern.match?
      (keyword ++ (gap ++ (p ++ (space ++ '=' :: '>' :: rest)))) = some g := by
  have htakes : Pattern.TakesAll shapeSinglePattern.steps
      (keyword ++ (gap ++ (p ++ (space ++ '=' :: '>' :: rest)))) [(2, rest), (1, p)] := by
    rw [steps_shapeSingle]
    refine Pattern.takesAll_word_cons.2 ⟨keyword, _, rfl, word, ?_⟩
    refine Pattern.takesAll_run_cons.2 ⟨gap, _, rfl, ⟨List.length_pos_iff.2 hgap.1, hgap.2⟩, ?_⟩
    refine Pattern.takesAll_capture_cons.2 ⟨p, _, [], [(2, rest)], rfl, rfl,
      Symbol.takes_identifier hname, ?_⟩
    refine Pattern.takesAll_run_cons.2 ⟨space, _, rfl, ⟨Nat.zero_le _, hspace⟩, ?_⟩
    refine Pattern.takesAll_word_cons.2 ⟨['=', '>'], _, rfl, rfl, ?_⟩
    refine Pattern.takesAll_run_cons.2 ⟨[], _, rfl, ⟨Nat.zero_le _, blank_nil⟩, ?_⟩
    exact Pattern.takesAll_singleton.2
      ⟨[], ⟨⟨List.length_pos_iff.2 hrest, fun _ _ => rfl⟩, rfl⟩, rfl⟩
  exact Pattern.exists_match?_of_takes (by decide) (Pattern.takes_iff_steps.2 htakes)

end Matches

/-- A text that is written as a shape with some parameters has its parts. -/
theorem shapeParts?_of_written (hs : s.trim = s)
    (h : WrittenShape (fun p => p.isIdentifier = true) s parameters body)
    (hparameters : parameters ≠ []) (hbody : body ≠ []) :
    s.shapeParts? = some (parameters, body) := by
  have hword : WrittenShape IsWordText s parameters body :=
    h.mono fun p hp => isWordText_of_isIdentifier hp
  have hrest : ∀ {rest : Text}, rest.trim ≠ [] → rest ≠ [] := by
    rintro rest hrest rfl
    exact hrest rfl
  rw [shapeParts?]
  cases hlist : shapeListPattern.match? s with
  | some g =>
    obtain ⟨rfl, rfl⟩ := hword.unique (written_of_list hs hlist).1
    rfl
  | none =>
    -- the text is not a list, so it has one parameter
    have hsingle : ∃ g, shapeSinglePattern.match? s = some g := by
      cases h with
      | single text word apart name blank =>
        rw [text]
        exact exists_match_single word apart name blank (hrest hbody)
      | @list keyword gap inner space rest text word blank closed blank' =>
        have hinner : inner ≠ [] := by
          rintro rfl
          exact hparameters rfl
        obtain ⟨g, hg⟩ := exists_match_list word blank hinner closed blank' (hrest hbody)
        rw [text, hg] at hlist
        cases hlist
    obtain ⟨g, hg⟩ := hsingle
    obtain ⟨hname, -, hwritten⟩ := written_of_single hs hg
    obtain ⟨rfl, rfl⟩ := hword.unique (hwritten IsWordText hname)
    rw [hg]
    rfl

/-- The parts of a text are those of a shape that it is written as, or of one parameter that is no
identifier. -/
theorem written_of_shapeParts? (hs : s.trim = s) (h : s.shapeParts? = some (parameters, body)) :
    body ≠ [] ∧ (WrittenShape (fun p => p.isIdentifier = true) s parameters body ∨
      ∃ p ∈ parameters, p.isIdentifier = false) := by
  rw [shapeParts?] at h
  split at h
  · next g hg =>
    cases h
    exact (written_of_list hs hg).symm.imp_right .inl
  · obtain ⟨g, hg, h⟩ := Option.map_eq_some_iff.1 h
    cases h
    obtain ⟨-, hbody, hwritten⟩ := written_of_single hs hg
    refine ⟨hbody, ?_⟩
    cases hname : (g.text 1).isIdentifier with
    | false => exact .inr ⟨_, List.mem_cons_self, hname⟩
    | true => exact .inl (hwritten _ hname)

/-! ## What is read before shapes -/

/-- No form that is tried before shapes takes a text. -/
structure Untaken (s : Text) : Prop where
  fenced : s.tripleQuoted? = none
  quoted : s.quoted? = none
  truth : s.isTrueWord = false
  lie : s.isFalseWord = false
  numeral : s.isNumeral = false
  sequence : unwrap? '[' ']' s = none
  tome : s.tomeBody? = none
  invoke : invokePattern.match? s = none
  path : s.isPath = false

instance (s : Text) : Decidable s.Untaken :=
  decidable_of_iff (s.tripleQuoted? = none ∧ s.quoted? = none ∧ s.isTrueWord = false ∧
      s.isFalseWord = false ∧ s.isNumeral = false ∧ unwrap? '[' ']' s = none ∧ s.tomeBody? = none ∧
      invokePattern.match? s = none ∧ s.isPath = false)
    ⟨fun ⟨h₁, h₂, h₃, h₄, h₅, h₆, h₇, h₈, h₉⟩ => ⟨h₁, h₂, h₃, h₄, h₅, h₆, h₇, h₈, h₉⟩,
      fun ⟨h₁, h₂, h₃, h₄, h₅, h₆, h₇, h₈, h₉⟩ => ⟨h₁, h₂, h₃, h₄, h₅, h₆, h₇, h₈, h₉⟩⟩

/-- A text in parentheses is no shape. -/
theorem shapeParts?_of_unwrap {inner : Text} (h : unwrap? '(' ')' s = some inner) :
    s.shapeParts? = none := by
  cases s with
  | nil => cases h
  | cons c s =>
    obtain rfl : c = '(' := by
      by_contra hc
      rw [unwrap?_of_ne hc] at h
      cases h
    exact (noPhrase_of_head (by decide) s).shape

theorem makeShape_of_tooMany (h : maxShapeParameters < parameters.length) :
    makeShape parameters body = .error (.tooManyParameters parameters.length) :=
  if_pos h

theorem makeShape_of_bad (hfew : parameters.length ≤ maxShapeParameters)
    (hbad : parameters.find? (fun p => !p.isIdentifier) = some p) :
    makeShape parameters body = .error (.badParameter p) := by
  rw [makeShape, if_neg (Nat.not_lt.2 hfew), hbad]

end Text

namespace Layer

variable {s body : Text} {parameters : List Text}

theorem of_untaken (h : s.Untaken) : of s = match s.shapeParts? with
    | some (parameters, body) => ofShape parameters body
    | none => ofOperators s := by
  rw [of, h.fenced, h.quoted]
  dsimp only
  rw [h.truth, h.lie, h.numeral, ofContainer, h.sequence]
  dsimp only
  rw [h.tome, ofCompound, h.invoke]
  dsimp only
  rw [h.path]
  rfl

theorem of_untaken_of_parts (h : s.Untaken) (hparts : s.shapeParts? = some (parameters, body)) :
    of s = ofShape parameters body := by
  rw [of_untaken h, hparts]

theorem of_untaken_of_none (h : s.Untaken) (hparts : s.shapeParts? = none) :
    of s = ofOperators s := by
  rw [of_untaken h, hparts]

end Layer

theorem Store.applyOperator_ne_shape {s : Store} {v w : Value} {op : Operator} {f : Shape} :
    s.applyOperator v op w ≠ .shape f := by
  unfold applyOperator
  split <;> nofun

namespace Run

variable {σ : Type} {m m' : Machine σ} {s body : Text} {parameters : List Text} {f : Shape}

/-! ## Evaluation -/

theorem run_value_of_layer {layer : Layer} (h : Layer.of s.trim = layer) :
    (evaluate (Eval.value s) : Run σ Value) = evaluate (layer.assemble Expr.ofText).eval := by
  rw [Eval.value, Expr.ofText_eq_assemble, h]

/-- What an operator gives is no shape. -/
theorem ne_shape_of_binary {left right : Expr} {op : Operator} :
    (evaluate (Expr.binary left op right).eval).run.run m ≠ (.ok (.shape f), m') := by
  intro h
  obtain ⟨r, hrun, -⟩ := exists_of_run_evaluate h
  rw [Expr.eval] at hrun
  obtain ⟨v, r₁, -, hrun⟩ := Eval.exists_of_run_bind hrun
  obtain ⟨w, r₂, -, hrun⟩ := Eval.exists_of_run_bind hrun
  obtain ⟨store, r₃, -, hrun⟩ := Eval.exists_of_run_bind hrun
  have hvalue : store.applyOperator v op w = .shape f := Except.ok.inj (congrArg Prod.fst hrun)
  exact Store.applyOperator_ne_shape hvalue

/-- Of the texts in parentheses and the texts with operators only the former can denote shapes. -/
theorem exists_of_ofOperators (hof : Layer.of s.trim = Layer.ofOperators s.trim)
    (h : (evaluate (Eval.value s)).run.run m = (.ok (.shape f), m')) :
    ∃ inner, Text.unwrap? '(' ')' s.trim = some inner ∧
      (evaluate (Eval.value inner)).run.run m = (.ok (.shape f), m') := by
  rw [run_value_of_layer hof, Layer.ofOperators] at h
  split at h
  · next inner hinner => exact ⟨inner, hinner, h⟩
  · split at h
    · exact absurd h ne_shape_of_binary
    · cases h

/-- The text of a shape denotes the shape. -/
theorem run_value_of_written (huntaken : s.trim.Untaken)
    (hwritten : Text.WrittenShape (fun p => p.isIdentifier = true) s.trim f.parameters f.body)
    (hparameters : f.parameters ≠ []) (hbody : f.body ≠ []) (hf : f.WellFormed) (m : Machine σ) :
    (evaluate (Eval.value s)).run.run m = (.ok (.shape f), m) := by
  have hparts := Text.shapeParts?_of_written (Text.trim_trim s) hwritten hparameters hbody
  rw [run_value_of_layer (Layer.of_untaken_of_parts huntaken hparts), Layer.ofShape,
    Text.makeShape_of_wellFormed hf]
  rfl

/-- A text that is written as a shape and makes none is refused, and nothing has changed. -/
theorem run_value_of_refused (huntaken : s.trim.Untaken)
    (hwritten : Text.WrittenShape (fun p => p.isIdentifier = true) s.trim parameters body)
    (hbody : body ≠ []) {fault : ReadingFault}
    (hmade : Text.makeShape parameters body = .error fault) (m : Machine σ) :
    (evaluate (Eval.value s)).run.run m = (.error { fault := .unreadable fault }, m) := by
  have hparameters : parameters ≠ [] := by
    rintro rfl
    cases hmade
  have hparts := Text.shapeParts?_of_written (Text.trim_trim s) hwritten hparameters hbody
  rw [run_value_of_layer (Layer.of_untaken_of_parts huntaken hparts), Layer.ofShape, hmade]
  rfl

/-- The texts that denote a shape with parameters, if no form tried before shapes takes them. -/
theorem run_value_eq_shape_iff (huntaken : s.trim.Untaken) (hparameters : f.parameters ≠ []) :
    (evaluate (Eval.value s)).run.run m = (.ok (.shape f), m') ↔
      (Text.WrittenShape (fun p => p.isIdentifier = true) s.trim f.parameters f.body ∧
        f.body ≠ [] ∧ f.WellFormed ∧ m' = m) ∨
      ∃ inner, Text.unwrap? '(' ')' s.trim = some inner ∧
        (evaluate (Eval.value inner)).run.run m = (.ok (.shape f), m') := by
  constructor
  · intro h
    rcases hparts : s.trim.shapeParts? with _ | ⟨parameters, body⟩
    · exact .inr (exists_of_ofOperators (Layer.of_untaken_of_none huntaken hparts) h)
    · left
      rw [run_value_of_layer (Layer.of_untaken_of_parts huntaken hparts), Layer.ofShape] at h
      obtain ⟨hbody, hwritten⟩ := Text.written_of_shapeParts? (Text.trim_trim s) hparts
      split at h
      · next made hmade =>
        cases h
        obtain ⟨rfl, hf⟩ := Text.makeShape_eq_ok hmade
        refine ⟨hwritten.resolve_right ?_, hbody, hf, rfl⟩
        rintro ⟨p, hp, hbad⟩
        exact absurd (hf.named p hp) (ne_true_of_eq_false hbad)
      · cases h
  · rintro (⟨hwritten, hbody, hf, rfl⟩ | ⟨inner, hinner, h⟩)
    · exact run_value_of_written huntaken hwritten hparameters hbody hf m'
    · have hparts := Text.shapeParts?_of_unwrap hinner
      rw [run_value_of_layer (Layer.of_untaken_of_none huntaken hparts), Layer.ofOperators, hinner]
      exact h

/-- Of the texts that no form tried before shapes takes, just those denote a shape with parameters
that are written as one, with identifiers and not too many of them, or that have in parentheses a
text that denotes the shape. A text that is written as a shape with too many parameters, or with one
that is no identifier, is refused. So the shapes that names are bound to and containers hold are
well formed, whatever calls are made, and so are those that texts denote. -/
theorem shape_grammar_is_exact [Host σ] :
    (∀ s : Text, s.trim.Untaken → ∀ m : Machine σ,
      (∀ (f : Shape) (m' : Machine σ), f.parameters ≠ [] →
        ((evaluate (Eval.value s)).run.run m = (.ok (.shape f), m') ↔
          (Text.WrittenShape (fun p => p.isIdentifier = true) s.trim f.parameters f.body ∧
            f.body ≠ [] ∧ f.WellFormed ∧ m' = m) ∨
          ∃ inner, Text.unwrap? '(' ')' s.trim = some inner ∧
            (evaluate (Eval.value inner)).run.run m = (.ok (.shape f), m'))) ∧
      ∀ (parameters : List Text) (body : Text), body ≠ [] →
        Text.WrittenShape (fun p => p.isIdentifier = true) s.trim parameters body →
        (maxShapeParameters < parameters.length → (evaluate (Eval.value s)).run.run m =
          (.error { fault := .unreadable (.tooManyParameters parameters.length) }, m)) ∧
        (parameters.length ≤ maxShapeParameters →
          ∀ p, parameters.find? (fun p => !p.isIdentifier) = some p →
            (evaluate (Eval.value s)).run.run m =
              (.error { fault := .unreadable (.badParameter p) }, m))) ∧
    ∀ (config : Config) (clock : Clock) (host : σ) (calls : List Call),
      (∀ f, (Machine.afterCalls config clock host calls).Bears f → f.WellFormed) ∧
      ∀ (s : Text) (f : Shape) (m' : Machine σ),
        (evaluate (Eval.value s)).run.run (Machine.afterCalls config clock host calls) =
          (.ok (.shape f), m') → f.WellFormed := by
  refine ⟨fun s huntaken m => ⟨fun f m' => run_value_eq_shape_iff huntaken,
    fun parameters body hbody hwritten => ⟨fun hmany => ?_, fun hfew p hbad => ?_⟩⟩,
    fun config clock host calls => ?_⟩
  · exact run_value_of_refused huntaken hwritten hbody (Text.makeShape_of_tooMany hmany) m
  · exact run_value_of_refused huntaken hwritten hbody (Text.makeShape_of_bad hfew hbad) m
  · have hshapely := Machine.shapely_afterCalls config clock host calls
    exact ⟨fun f => hshapely.wellFormed_of_bears, fun s f m' => wellFormed_of_value hshapely⟩

theorem shape_grammar_is_exact_sum :
    (evaluate (Eval.value "Shape (a, b) => a + b".toList)).run.run Machine.unused =
        (.ok (.shape ⟨["a".toList, "b".toList], "a + b".toList⟩), .unused) ∧
      (evaluate (Eval.value "(shape x => x)".toList)).run.run Machine.unused =
        (.ok (.shape ⟨["x".toList], "x".toList⟩), .unused) ∧
      (evaluate (Eval.value "Shape (a, b, c, d) => a".toList)).run.run Machine.unused =
        (.error { fault := .unreadable (.tooManyParameters 4) }, .unused) ∧
      (evaluate (Eval.value "Shape (a, 2) => a".toList)).run.run Machine.unused =
        (.error { fault := .unreadable (.badParameter ['2']) }, .unused) := by
  have hforms := (@shape_grammar_is_exact Transcript _).1
  have hlist : ∀ inner rest : Text, ')' ∉ inner →
      Text.WrittenShape (fun p => p.isIdentifier = true)
        ("Shape".toList ++ ([' '] ++ '(' :: (inner ++ ')' :: ([' '] ++ '=' :: '>' :: rest))))
        (Text.listed inner) rest.trim := fun inner rest hinner =>
    .list rfl rfl (by decide) hinner (by decide)
  refine ⟨?_, ?_, ?_, ?_⟩
  · refine ((hforms _ (by decide) _).1 _ _ (by decide)).2 (.inl ⟨?_, by decide, by decide, rfl⟩)
    exact hlist "a, b".toList " a + b".toList (by decide)
  · refine ((hforms _ (by decide) _).1 _ _ (by decide)).2 (.inr ⟨"shape x => x".toList, rfl, ?_⟩)
    refine ((hforms _ (by decide) _).1 _ _ (by decide)).2 (.inl ⟨?_, by decide, by decide, rfl⟩)
    exact @Text.WrittenShape.single _ _ "shape".toList [' '] ['x'] [' '] " x".toList rfl rfl
      (by decide) rfl (by decide)
  · have hwritten := hlist "a, b, c, d".toList " a".toList (by decide)
    exact ((hforms "Shape (a, b, c, d) => a".toList (by decide) _).2 _ _ (by decide) hwritten).1
      (by decide)
  · have hwritten := hlist "a, 2".toList " a".toList (by decide)
    exact ((hforms "Shape (a, 2) => a".toList (by decide) _).2 _ _ (by decide) hwritten).2
      (by decide) _ rfl

/-- A piece of the list may be missing between two commas, and a shape is made of the others. -/
theorem missing_parameter_is_skipped :
    (Text.trim "Shape (a,,b) => a + b".toList).Untaken ∧
      (evaluate (Eval.value "Shape (a,,b) => a + b".toList)).run.run Machine.unused =
        (.ok (.shape ⟨["a".toList, "b".toList], "a + b".toList⟩), .unused) ∧
      ∀ keyword gap inner rest : Text, Text.trim "Shape (a,,b) => a + b".toList =
          keyword ++ (gap ++ '(' :: (inner ++ ')' :: rest)) →
        keyword.map foldCase = "Shape".toList.map foldCase → Text.Blank gap → ')' ∉ inner →
        [] ∈ (Text.splitOn ',' inner).map Text.trim := by
  have huntaken : Text.Untaken (Text.trim "Shape (a,,b) => a + b".toList) := by decide
  refine ⟨huntaken, run_value_of_written huntaken ?_ (by decide) (by decide) (by decide) _, ?_⟩
  · exact @Text.WrittenShape.list _ _ "Shape".toList [' '] "a,,b".toList [' '] " a + b".toList rfl
      rfl (by decide) (by decide) (by decide)
  · intro keyword gap inner rest heq hword hgap hinner
    have hsplit : Text.trim "Shape (a,,b) => a + b".toList =
        "Shape".toList ++ ([' '] ++ '(' :: ("a,,b".toList ++ ')' :: " => a + b".toList)) := rfl
    obtain ⟨rfl, -⟩ := Text.list_append_inj rfl hword (by decide) hgap (by decide) hinner
      (hsplit.symm.trans heq)
    decide

end Run

end Grimoire
