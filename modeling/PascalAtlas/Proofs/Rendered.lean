import PascalAtlas.Proofs.MaskedLine
import PascalAtlas.Proofs.Spoken

/-!
# The masked text of a blueprint

Only the bodies of a blueprint have anything to mask, so the masked text is the source text with
**masked bodies** (`Blueprint.mask_render`). `Blueprint.rendered` writes a blueprint with its bodies
in any view; the source text and the masked text are two cases of it, with the same offsets.

For the search that follows, the parts of the text are known by their words (`Text.Says`) and by
their signs (`Text.Of`).
-/

namespace PascalAtlas

/-! ## Signs -/

namespace Text

/-- A text of identifier characters and some **signs**. -/
def Of (signs : List Char) (t : Text) : Prop :=
  ∀ c ∈ t, isIdentChar c = true ∨ c ∈ signs

variable {signs : List Char} {a b t : Text}

theorem of_nil : Of signs [] := by
  intro c hc
  cases hc

/-- Two texts of some signs are one of them together. -/
theorem Of.append (ha : a.Of signs) (hb : b.Of signs) : Of signs (a ++ b) := by
  intro c hc
  obtain hc | hc := List.mem_append.1 hc
  · exact ha c hc
  · exact hb c hc

theorem Of.cons {c : Char} (hc : isIdentChar c = true ∨ c ∈ signs) (hb : b.Of signs) :
    Of signs (c :: b) := by
  intro d hd
  obtain rfl | hd := List.mem_cons.1 hd
  · exact hc
  · exact hb d hd

/-- A text of some signs is one of more signs. -/
theorem Of.mono {vs : List Char} (h : t.Of signs) (hsub : ∀ c ∈ signs, c ∈ vs) : t.Of vs :=
  fun c hc => (h c hc).imp_right (hsub c)

/-- Several texts of some signs are one of them together. -/
theorem of_flatMap {α : Type} {f : α → Text} {xs : List α} (h : ∀ x ∈ xs, (f x).Of signs) :
    Of signs (xs.flatMap f) := by
  intro c hc
  obtain ⟨x, hx, hc⟩ := List.mem_flatMap.1 hc
  exact h x hx c hc

/-- A plain name has no signs at all. -/
theorem of_name (x : PlainName) : Of signs x.text :=
  fun _ hc => .inl (x.isIdentChar_of_mem hc)

/-- A name with dots has dots only. -/
theorem of_dottedName (d : DottedName) (hdot : '.' ∈ signs) : Of signs d.text := by
  refine (of_name d.first).append (of_flatMap fun x _ => ?_)
  exact .cons (.inr hdot) (of_name x)

/-- Whether a fixed text has only some signs can be computed. -/
theorem of_literal {w : Text} (hw : (w.all fun c => isIdentChar c || signs.contains c) = true) :
    Of signs w := by
  intro c hc
  have h := List.all_eq_true.1 hw c hc
  rw [Bool.or_eq_true, List.contains_iff_mem] at h
  exact h

/-- Any other sign is not in the text. -/
theorem Of.not_mem (h : t.Of signs) {c : Char} (hc : isIdentChar c = false) (hsigns : c ∉ signs) :
    c ∉ t := by
  intro hmem
  obtain hident | hsign := h c hmem
  · rw [hident] at hc
    cases hc
  · exact hsigns hsign

end Text

namespace Mask

/-- A text that is **copied** by the mask, whatever follows it. -/
def Copied (t : Text) : Prop :=
  ∀ rest, maskText (t ++ rest) = t ++ maskText rest

variable {a b t : Text}

/-- Two texts that are copied by the mask are copied together. -/
theorem Copied.append (ha : Copied a) (hb : Copied b) : Copied (a ++ b) := by
  intro rest
  rw [List.append_assoc, ha, hb, List.append_assoc]

/-- A text without the signs that open comments and literals **is copied**. -/
theorem copied_of {signs : List Char} (h : t.Of signs) (hsigns : ∀ c ∈ signs, IsQuiet c) :
    Copied t := by
  refine maskText_append fun c hc => ?_
  obtain hident | hsign := h c hc
  · exact isQuiet_of (p := Text.isIdentChar) (by decide) hident
  · exact hsigns c hsign

theorem Copied.spaced (h : Copied t) : Copied (' ' :: t) := by
  have hspace : Copied [' '] := maskText_append (by decide)
  exact hspace.append h

/-- An opening bracket is copied if no star follows it. -/
theorem copied_paren {signs : List Char} (h : t.Of signs) (hsigns : ∀ c ∈ signs, IsQuiet c)
    (hstar : '*' ∉ signs) (hne : t ≠ []) : Copied ('(' :: t) := by
  intro rest
  obtain ⟨c, cs, rfl⟩ := List.exists_cons_of_ne_nil hne
  have hc : c ≠ '*' := by
    rintro rfl
    exact h.not_mem (by decide) hstar (by simp)
  have hcomment : Token.opensComment '(' (c :: cs ++ rest) = false := by
    simp [Token.opensComment, Token.headIs, hc]
  rw [List.cons_append, maskText_cons (by decide) (by decide) hcomment, copied_of h hsigns]
  rfl

/-- So are several such texts. -/
theorem copied_flatMap {α : Type} {f : α → Text} {xs : List α} (h : ∀ x ∈ xs, Copied (f x)) :
    Copied (xs.flatMap f) := by
  induction xs with
  | nil => exact fun rest => rfl
  | cons x xs ih =>
    rw [List.flatMap_cons]
    exact (h x (by simp)).append (ih fun y hy => h y (by simp [hy]))

end Mask

namespace Blueprint

/-! ## The parts of the text -/

/-- The result of a function as it is written behind the parameters. -/
def RoutineForm.renderResult (f : RoutineForm) : Text :=
  (f.result?.map fun result => ": ".toList ++ result.text).getD []

/-- The parameters of a routine as they are written between their brackets. -/
def Routine.renderParams (r : Routine) : Text :=
  Param.renderList (r.parameters.map Parameter.param)

/-- A heading before its semicolon. -/
def Routine.headingText (owner : Option PlainName) (r : Routine) : Text :=
  r.form.kind.word.toList ++ ' '
    :: ((r.fullName owner).text ++ '(' :: (r.renderParams ++ ')' :: r.form.renderResult))

/-- A heading ends with its `;`. -/
theorem Routine.renderHeading_eq (owner : Option PlainName) (r : Routine) :
    r.renderHeading owner = r.headingText owner ++ [';'] := by
  rw [headingText, r.text_fullName]
  show r.form.kind.word.toList ++ [' ']
    ++ (owner.map fun c => c.text ++ ['.']).getD [] ++ r.name.text
    ++ ['('] ++ r.renderParams ++ [')'] ++ r.form.renderResult ++ [';'] = _
  simp only [List.append_assoc, List.cons_append, List.nil_append]

/-- A routine with its body in a view. -/
def Routine.rendered (view : Text → Text) (owner : Option PlainName) (r : Routine) : Text :=
  r.renderHeading owner ++ ' ' :: (Text.inBlock (view r.body) ++ [';'])

/-- A member of a class before its semicolon. -/
def Member.text : Member → Text
  | .inl f => f.name.text ++ ": ".toList ++ f.type.text
  | .inr m => m.headingText none

/-- The ancestor of a class in its brackets. -/
def renderHeritage (ancestor : Option PlainName) : Text :=
  (ancestor.map fun a => '(' :: (a.text ++ [')'])).getD []

/-- The members of a class. -/
def Class.renderMembers (c : Class) : Text :=
  c.members.flatMap fun m => ' ' :: (m.text ++ [';'])

/-- A class behind the word that says that it is one. -/
def Class.inside (c : Class) : Text :=
  renderHeritage c.ancestor ++ (c.renderMembers ++ " end;".toList)

/-- A class is its name and what is inside it. -/
theorem Class.render_eq (c : Class) :
    c.render = c.name.text ++ (" = class".toList ++ c.inside) := by
  have hmembers : c.renderMembers
      = (c.fields.flatMap fun f => ' ' :: f.render) ++ c.methods.flatMap fun m =>
    ' ' :: m.renderHeading none := by
    have hmethods : (c.methods.flatMap fun m => ' ' :: m.renderHeading none)
        = c.methods.flatMap fun m => ' ' :: (Member.text (.inr m) ++ [';']) :=
      List.flatMap_congr fun m _ => congrArg _ (m.renderHeading_eq none)
    rw [hmethods, renderMembers, members, List.flatMap_append, List.flatMap_map, List.flatMap_map]
    rfl
  have hheritage : renderHeritage c.ancestor
      = (c.ancestor.map fun a => ['('] ++ a.text ++ [')']).getD [] := by
    cases c.ancestor <;> rfl
  rw [inside, hmembers, hheritage]
  show c.name.text ++ " = class".toList
    ++ (c.ancestor.map fun a => ['('] ++ a.text ++ [')']).getD []
    ++ (c.fields.flatMap fun f => ' ' :: f.render)
    ++ (c.methods.flatMap fun m => ' ' :: m.renderHeading none)
    ++ " end;".toList = _
  simp only [List.append_assoc]

/-- What comes before the classes of a unit. -/
def prologue (u : Blueprint) : Text :=
  "unit ".toList ++ (u.name.text ++ ([';'] ++ (renderUses u.uses ++ " interface".toList)))

/-- The headings of the procedures. -/
def headings (rs : List Routine) : Text :=
  rs.flatMap fun r => ' ' :: r.renderHeading none

/-- Some routines with their bodies in a view. -/
def bodies (view : Text → Text) (is : List (Option PlainName × Routine)) : Text :=
  is.flatMap fun i => ' ' :: i.2.rendered view i.1

/-- What comes behind the classes of a unit. -/
def epilogue (view : Text → Text) (u : Blueprint) : Text :=
  headings u.procedures ++ (" implementation".toList
    ++ (bodies view u.implementations ++ " end.".toList))

/-- **The text of a blueprint with its bodies in a view.** -/
def rendered (view : Text → Text) (u : Blueprint) : Text :=
  u.prologue ++ (renderTypes u.classes ++ u.epilogue view)

/-- With its bodies as they are, a blueprint is its source text. -/
theorem rendered_id (u : Blueprint) : u.rendered id = u.render := by
  have hbodies : bodies id u.implementations
      = (u.classes.flatMap fun c => c.methods.flatMap fun m => ' ' :: m.render (some c.name))
        ++ u.procedures.flatMap fun r => ' ' :: r.render none := by
    have hrendered : ∀ (owner : Option PlainName) (r : Routine), r.rendered id owner
        = r.render owner := by
      intro owner r
      show _ = r.renderHeading owner ++ [' '] ++ Text.inBlock r.body ++ [';']
      rw [Routine.rendered, List.append_assoc, List.append_assoc]
      rfl
    have hview : (fun i : Option PlainName × Routine => ' ' :: i.2.rendered id i.1)
        = fun i => ' ' :: i.2.render i.1 := funext fun i => congrArg _ (hrendered i.1 i.2)
    rw [bodies, hview, implementations, List.flatMap_append, List.flatMap_map, List.flatMap_assoc]
    simp only [List.flatMap_map]
  rw [rendered, epilogue, hbodies]
  show _ = "unit ".toList ++ u.name.text ++ [';'] ++ renderUses u.uses ++ " interface".toList
    ++ renderTypes u.classes
    ++ headings u.procedures ++ " implementation".toList
    ++ (u.classes.flatMap fun c => c.methods.flatMap fun m => ' ' :: m.render (some c.name))
    ++ (u.procedures.flatMap fun r => ' ' :: r.render none) ++ " end.".toList
  simp only [prologue, List.append_assoc]

/-! ## Their words and signs -/

/-- A parameter is its name, and its type if it has one. -/
theorem Parameter.render_eq (p : Parameter) :
    p.param.render = p.name.text ++ (p.type.map fun type => " : ".toList ++ type.text).getD [] := by
  obtain ⟨name, _ | type⟩ := p
  · exact (List.append_nil _).symm
  · obtain ⟨c, cs, htext, -⟩ := type.exists_cons
    show Param.render ⟨name.text, type.text⟩ = name.text ++ (" : ".toList ++ type.text)
    rw [Param.render, htext, if_neg (by simp), List.append_assoc]

/-- The signs of parameters. -/
theorem Routine.of_renderParams (r : Routine) : r.renderParams.Of [' ', ':', ';'] := by
  have hparam : ∀ p : Parameter, Text.Of [' ', ':', ';'] p.param.render := by
    intro p
    rw [p.render_eq]
    refine (Text.of_name _).append ?_
    cases p.type with
    | none => exact Text.of_nil
    | some type => exact (Text.of_literal (by decide)).append (Text.of_name _)
  rw [renderParams]
  induction r.parameters with
  | nil => exact Text.of_nil
  | cons p ps ih =>
    cases ps with
    | nil => exact hparam p
    | cons q ps => exact ((hparam p).append (Text.of_literal (by decide))).append ih

/-- Parameters have no words but plain names. -/
theorem Routine.says_renderParams {ws : List String} (r : Routine) : r.renderParams.Says ws := by
  have hparam : ∀ p : Parameter, Text.Says ws p.param.render := by
    intro p
    rw [p.render_eq]
    cases p.type with
    | none =>
      show Text.Says ws (p.name.text ++ [])
      rw [List.append_nil]
      exact Text.says_name _
    | some type =>
      exact (Text.says_name _).append_cons rfl (.cons rfl (.cons rfl (Text.says_name _)))
  rw [renderParams]
  induction r.parameters with
  | nil => exact Text.says_nil
  | cons p ps ih =>
    cases ps with
    | nil => exact hparam p
    | cons q ps =>
      show Text.Says ws (p.param.render ++ "; ".toList
        ++ Param.renderList ((q :: ps).map Parameter.param))
      rw [List.append_assoc]
      exact (hparam p).append_cons rfl (.cons rfl ih)

/-- The signs of a result. -/
theorem RoutineForm.of_renderResult (f : RoutineForm) : f.renderResult.Of [' ', ':'] := by
  rw [renderResult]
  cases f.result? with
  | none => exact Text.of_nil
  | some result => exact (Text.of_literal (by decide)).append (Text.of_name _)

/-- Nor has a result. -/
theorem RoutineForm.says_renderResult {ws : List String} (f : RoutineForm) :
    f.renderResult.Says ws := by
  rw [renderResult]
  cases f.result? with
  | none => exact Text.says_nil
  | some result => exact .cons rfl (.cons rfl (Text.says_name _))

end Blueprint

/-- Nor has a name with dots. -/
theorem Text.says_dottedName {ws : List String} (d : DottedName) : Text.Says ws d.text := by
  have hothers : ∀ (x : PlainName) (xs : List PlainName),
      Text.Says ws (x.text ++ xs.flatMap fun y => '.' :: y.text) := by
    intro x xs
    induction xs generalizing x with
    | nil =>
      rw [List.flatMap_nil, List.append_nil]
      exact Text.says_name x
    | cons y ys ih =>
      rw [List.flatMap_cons, List.cons_append]
      exact (Text.says_name x).append_cons rfl (ih y)
  exact hothers d.first d.others

namespace Blueprint

/-- A routine begins with one of the words for it. -/
theorem RoutineForm.word_mem (f : RoutineForm) : f.kind.word ∈ Scanner.routineWords := by
  generalize f.kind = kind
  cases kind <;> decide

theorem RoutineForm.word_isLower (f : RoutineForm) :
    f.kind.word.toList.all Char.isLower = true := by
  generalize f.kind = kind
  cases kind <;> decide

/-- A heading has plain names and words of routines, and **no other words**. -/
theorem Routine.says_headingText (owner : Option PlainName) (r : Routine) :
    (r.headingText owner).Says Scanner.routineWords :=
  (Text.says_word r.form.word_mem r.form.word_isLower).append_cons rfl
    ((Text.says_dottedName _).append_cons rfl
      (r.says_renderParams.append_cons rfl r.form.says_renderResult))

/-- A field has no words but plain names. -/
theorem Field.says_text {ws : List String} (f : Field) : (Member.text (.inl f)).Says ws := by
  show Text.Says ws (f.name.text ++ ": ".toList ++ f.type.text)
  rw [List.append_assoc]
  exact (Text.says_name _).append_cons rfl (.cons rfl (Text.says_name _))

/-- A member has plain names and words of routines, and no others. -/
theorem Member.says_text (m : Member) : m.text.Says Scanner.routineWords := by
  cases m with
  | inl f => exact f.says_text
  | inr m => exact m.says_headingText none

theorem RoutineForm.of_word {signs : List Char} (f : RoutineForm) :
    Text.Of signs f.kind.word.toList := by
  intro c hc
  exact .inl (Text.isIdentChar_of_isLower (List.all_eq_true.1 f.word_isLower c hc))

/-- The signs of a heading. -/
theorem Routine.of_headingText (owner : Option PlainName) (r : Routine) :
    (r.headingText owner).Of ['(', ')', ' ', ':', ';', '.'] := by
  have hparams : r.renderParams.Of ['(', ')', ' ', ':', ';', '.'] :=
    r.of_renderParams.mono (by decide)
  have hresult : r.form.renderResult.Of ['(', ')', ' ', ':', ';', '.'] :=
    r.form.of_renderResult.mono (by decide)
  have hname := (Text.of_dottedName (r.fullName owner) (by decide)).append
    ((hparams.append (hresult.cons (c := ')') (by decide))).cons (c := '(') (by decide))
  exact r.form.of_word.append (hname.cons (by decide))

/-- The signs of a member. -/
theorem Member.of_text (m : Member) : m.text.Of ['(', ')', ' ', ':', ';', '.'] := by
  cases m with
  | inl f => exact ((Text.of_name _).append (Text.of_literal (by decide))).append (Text.of_name _)
  | inr m => exact m.of_headingText none

/-- Inside a class stand plain names, words of routines and its `end`. -/
theorem Class.says_inside (c : Class) : c.inside.Says (Scanner.routineWords ++ ["end"]) := by
  have hend : Text.Says (Scanner.routineWords ++ ["end"]) " end;".toList :=
    .cons rfl ((Text.says_word (w := "end") (by decide) (by decide)).append_cons rfl Text.says_nil)
  have hmembers : Text.Says (Scanner.routineWords ++ ["end"]) (c.renderMembers ++ " end;".toList)
      ∧ (c.renderMembers ++ " end;".toList).head?.any Text.isWordChar = false := by
    rw [renderMembers]
    induction c.members with
    | nil => exact ⟨hend, rfl⟩
    | cons m ms ih =>
      refine ⟨?_, rfl⟩
      have hm : Text.Says (Scanner.routineWords ++ ["end"]) (' ' :: (Member.text m ++ [';'])) :=
        .cons rfl (((Member.says_text m).mono fun w hw => List.mem_append_left _ hw).append_cons
          rfl Text.says_nil)
      rw [List.flatMap_cons, List.append_assoc]
      exact hm.append ih.1 ih.2
  rw [inside, renderHeritage]
  cases c.ancestor with
  | none => exact hmembers.1
  | some a =>
    exact .cons rfl (((Text.says_name a).append_cons rfl Text.says_nil).append
      hmembers.1 hmembers.2)

/-- The signs of a class. -/
theorem Class.of_inside (c : Class) : c.inside.Of ['(', ')', ' ', ':', ';', '.'] := by
  have hmembers : c.renderMembers.Of ['(', ')', ' ', ':', ';', '.'] :=
    Text.of_flatMap fun m _ => .cons (by decide)
      ((Member.of_text m).append (Text.of_literal (by decide)))
  have hend := hmembers.append (Text.of_literal (w := " end;".toList) (by decide))
  rw [inside, renderHeritage]
  cases c.ancestor with
  | none => exact hend
  | some a =>
    exact .cons (by decide) (((Text.of_name a).append (Text.of_literal (by decide))).append hend)

/-- A list of units has no words but plain names. -/
theorem says_uses {ws : List String} (d : DottedName) (ds : List DottedName) :
    Text.Says ws (d.text ++ ((ds.flatMap fun d => ", ".toList ++ d.text) ++ [';'])) := by
  induction ds generalizing d with
  | nil => exact (Text.says_dottedName d).append_cons rfl Text.says_nil
  | cons e es ih =>
    rw [List.flatMap_cons, List.append_assoc, List.append_assoc]
    exact (Text.says_dottedName d).append_cons rfl (.cons rfl (ih e))

/-- What stands before the classes has, plain names aside, three words of its own. -/
theorem says_prologue (u : Blueprint) : u.prologue.Says ["unit", "uses", "interface"] := by
  have hinterface : Text.Says ["unit", "uses", "interface"] " interface".toList :=
    .cons rfl (Text.says_word (w := "interface") (by decide) (by decide))
  have huses : Text.Says ["unit", "uses", "interface"]
      (renderUses u.uses ++ " interface".toList) := by
    cases u.uses with
    | nil => exact hinterface
    | cons d ds =>
      have hlist : Text.Says ["unit", "uses", "interface"] (renderUses (d :: ds)) := by
        show Text.Says _ (" uses ".toList ++ d.text
          ++ (ds.flatMap fun d => ", ".toList ++ d.text) ++ [';'])
        rw [List.append_assoc, List.append_assoc]
        exact .cons rfl ((Text.says_word (w := "uses") (by decide) (by decide)).append_cons rfl
          (says_uses d ds))
      exact hlist.append hinterface rfl
  exact (Text.says_word (w := "unit") (by decide) (by decide)).append_cons rfl
    ((Text.says_dottedName _).append_cons rfl huses)

/-- The signs of what stands before the classes. -/
theorem of_prologue (u : Blueprint) : u.prologue.Of [' ', ',', '.', ';'] := by
  have hname (d : DottedName) : Text.Of [' ', ',', '.', ';'] d.text :=
    Text.of_dottedName d (by decide)
  have huses : (renderUses u.uses).Of [' ', ',', '.', ';'] := by
    cases u.uses with
    | nil => exact Text.of_nil
    | cons first others =>
      have hothers : Text.Of [' ', ',', '.', ';'] (others.flatMap fun d => ", ".toList ++ d.text) :=
        Text.of_flatMap fun d _ => (Text.of_literal (by decide)).append (hname d)
      exact (((Text.of_literal (by decide)).append (hname first)).append hothers).append
        (Text.of_literal (by decide))
  exact (Text.of_literal (by decide)).append
    ((hname _).append ((huses.append (Text.of_literal (by decide))).cons (by decide)))

/-! ## The masked text -/

/-- A heading is copied by the mask. -/
theorem Routine.copied_headingText (owner : Option PlainName) (r : Routine) :
    Mask.Copied (r.headingText owner) := by
  have hword : Mask.Copied r.form.kind.word.toList :=
    Mask.copied_of (@RoutineForm.of_word [] _) (by simp)
  have hname : Mask.Copied (r.fullName owner).text :=
    Mask.copied_of (Text.of_dottedName _ (List.mem_singleton_self '.')) (by decide)
  have hspace : Mask.Copied [' '] := Mask.maskText_append (by decide)
  have hparams : r.renderParams.Of [' ', ':', ';', ')'] := r.of_renderParams.mono (by decide)
  have hresult : r.form.renderResult.Of [' ', ':', ';', ')'] :=
    r.form.of_renderResult.mono (by decide)
  have hparen := Mask.copied_paren (hparams.append (hresult.cons (c := ')') (by decide)))
    (by decide) (by decide) (by simp)
  exact hword.append (hspace.append (hname.append hparen))

/-- So is its `;`. -/
theorem Routine.copied_renderHeading (owner : Option PlainName) (r : Routine) :
    Mask.Copied (r.renderHeading owner) := by
  have hsemi : Mask.Copied [';'] := Mask.maskText_append (by decide)
  rw [r.renderHeading_eq]
  exact (r.copied_headingText owner).append hsemi

/-- A member is copied. -/
theorem Member.copied_text (m : Member) : Mask.Copied m.text := by
  cases m with
  | inl f =>
    have hcolon : Text.Of [' ', ':'] ": ".toList := Text.of_literal (by decide)
    exact Mask.copied_of (((Text.of_name _).append hcolon).append (Text.of_name _)) (by decide)
  | inr m => exact m.copied_headingText none

/-- So is a class. -/
theorem Class.copied_render (c : Class) : Mask.Copied c.render := by
  have hname : Mask.Copied c.name.text := Mask.copied_of (@Text.of_name [] _) (by simp)
  have hclass : Mask.Copied " = class".toList := Mask.maskText_append (by decide)
  have hend : Mask.Copied " end;".toList := Mask.maskText_append (by decide)
  have hheritage : Mask.Copied (renderHeritage c.ancestor) := by
    cases c.ancestor with
    | none => exact fun rest => rfl
    | some a =>
      have hparen : Text.Of [')'] [')'] := Text.of_literal (by decide)
      exact Mask.copied_paren ((Text.of_name a).append hparen) (by decide) (by decide) (by simp)
  have hmembers : Mask.Copied c.renderMembers := by
    have hsemi : Mask.Copied [';'] := Mask.maskText_append (by decide)
    exact Mask.copied_flatMap fun m _ => ((Member.copied_text m).append hsemi).spaced
  rw [c.render_eq]
  exact hname.append (hclass.append (hheritage.append (hmembers.append hend)))

/-- So are all of them. -/
theorem copied_renderTypes (classes : List Class) : Mask.Copied (renderTypes classes) := by
  have htype : Mask.Copied " type".toList := Mask.maskText_append (by decide)
  rw [renderTypes]
  split
  · exact fun rest => rfl
  · exact htype.append (Mask.copied_flatMap fun c _ => c.copied_render.spaced)

/-- So is what stands before them. -/
theorem copied_prologue (u : Blueprint) : Mask.Copied u.prologue :=
  Mask.copied_of u.of_prologue (by decide)

/-- **A body is masked by itself.** -/
theorem Routine.maskText_rendered (owner : Option PlainName) (r : Routine) (rest : Text) :
    Mask.maskText (r.rendered id owner ++ rest)
      = r.rendered Mask.mask owner ++ Mask.maskText rest := by
  obtain ⟨tokens, -, hlex, -⟩ := Text.exists_of_isBody r.isBody
  have hline : ∀ body more, Text.inBlock body ++ more
      = ("begin\n".toList ++ body) ++ '\n' :: ("end".toList ++ more) := by
    intro body more
    show "begin\n".toList ++ body ++ "\nend".toList ++ more = _
    rw [List.append_assoc]
    rfl
  have hlex' : Token.lexFrom 0 (("begin\n".toList ++ r.body) ++ '\n' :: "end".toList)
      = .ok tokens := by
    have h := hline r.body []
    rw [List.append_nil, List.append_nil] at h
    rw [← h]
    exact hlex
  have hbegin : Mask.Copied "begin\n".toList := Mask.maskText_append (by decide)
  have hend : Mask.Copied "end".toList := Mask.maskText_append (by decide)
  have hsemi : Mask.Copied [';'] := Mask.maskText_append (by decide)
  have hspace : Mask.Copied [' '] := Mask.maskText_append (by decide)
  -- The break before the `end` divides the mask, and the other words are left as they are.
  have hblock : Mask.maskText (Text.inBlock r.body ++ ([';'] ++ rest))
      = Text.inBlock (Mask.mask r.body) ++ ([';'] ++ Mask.maskText rest) := by
    rw [hline, hline, Mask.maskText_line ⟨rfl, rfl⟩ _ 0 hlex', hbegin, hend, hsemi, Mask.mask_eq]
  have hheading := ((r.copied_renderHeading owner).append hspace)
    (Text.inBlock r.body ++ ([';'] ++ rest))
  rw [hblock] at hheading
  simp only [rendered, List.append_assoc, List.cons_append, List.nil_append] at hheading ⊢
  exact hheading

/-- Of the routines **only the bodies** are masked. -/
theorem maskText_bodies (is : List (Option PlainName × Routine)) (rest : Text) :
    Mask.maskText (bodies id is ++ rest) = bodies Mask.mask is ++ Mask.maskText rest := by
  induction is with
  | nil => rfl
  | cons i is ih =>
    have hspace : ∀ t, Mask.maskText (' ' :: t) = ' ' :: Mask.maskText t := fun t =>
      Mask.maskText_cons (by decide) (by decide) rfl
    rw [bodies, bodies, List.flatMap_cons, List.flatMap_cons, List.append_assoc, List.append_assoc,
      List.cons_append, List.cons_append, hspace, Routine.maskText_rendered]
    exact congrArg (fun t => ' ' :: (i.2.rendered Mask.mask i.1 ++ t)) ih

/-- **The masked text is the text with masked bodies.** -/
theorem mask_render (u : Blueprint) : Mask.mask u.render = u.rendered Mask.mask := by
  have hword : Mask.Copied " implementation".toList := Mask.maskText_append (by decide)
  have hend : Mask.Copied " end.".toList := Mask.maskText_append (by decide)
  have hheadings : Mask.Copied (headings u.procedures) := by
    rw [headings]
    exact Mask.copied_flatMap fun r _ => (r.copied_renderHeading none).spaced
  have hlast : Mask.maskText " end.".toList = " end.".toList := by
    have h := hend []
    rwa [List.append_nil, Mask.maskText, List.append_nil] at h
  rw [Mask.mask_eq, ← u.rendered_id, rendered, u.copied_prologue, copied_renderTypes, epilogue,
    hheadings, hword, maskText_bodies, hlast]
  rfl

end Blueprint

/-! ## Level bodies -/

namespace Text

/-- The words that open a block, which has to be closed. -/
def opensBlock (w : Text) : Bool :=
  isOneOf w (["begin", "asm", "case", "try"].map String.toList)

/-- The number of open blocks after one more word. For every `end` there has to be a block. -/
def depthStep (depth : Nat) (w : Text) : Option Nat :=
  if opensBlock w then
    some (depth + 1)
  else if eqIgnoreCase w "end".toList then
    match depth with
    | 0 => none
    | depth + 1 => some depth
  else
    some depth

/-- The number of **open blocks** after some words. -/
def depthAfter (depth : Nat) (ws : List Text) : Option Nat :=
  ws.foldlM depthStep depth

/-- A body is **level** if, comments and literals aside, each of its blocks has an `end` of its own,
and none of its words could open a declaration. -/
structure IsLevel (body : Text) : Prop where
  closed : depthAfter 0 (Mask.mask body).runs = some 0
  silent : (Mask.mask body).Silent ["uses", "class", "record"]

instance (body : Text) : Decidable body.IsLevel :=
  decidable_of_iff (depthAfter 0 (Mask.mask body).runs = some 0
      ∧ (Mask.mask body).Silent ["uses", "class", "record"])
    ⟨fun h => ⟨h.1, h.2⟩, fun h => ⟨h.closed, h.silent⟩⟩

end Text

namespace Blueprint

/-- The words behind the classes of a blueprint, bodies aside. -/
def laterWords : List String :=
  Scanner.routineWords ++ ["begin", "end", "implementation"]

section

variable {ws : List String} (hws : Text.areForeign ws laterWords = true)
include hws

/-- The words that come later are not those that are searched for. -/
theorem silent_word {w : String} (hw : w ∈ laterWords) (hlower : w.toList.all Char.isLower = true) :
    Text.Silent ws w.toList :=
  (Text.says_word hw hlower).silent hws

/-- A heading is silent about them. -/
theorem Routine.silent_renderHeading (owner : Option PlainName) (r : Routine) :
    (r.renderHeading owner).Silent ws := by
  rw [r.renderHeading_eq]
  have hheading : Text.Says laterWords (r.headingText owner ++ [';']) :=
    ((r.says_headingText owner).mono fun w hw => List.mem_append_left _ hw).append_cons
      rfl Text.says_nil
  exact hheading.silent hws

/-- So is a routine, if its masked body is. -/
theorem Routine.silent_rendered (owner : Option PlainName) (r : Routine)
    (hbody : (Mask.mask r.body).Silent ws) :
    (r.rendered Mask.mask owner).Silent ws := by
  have hbegin := silent_word hws (w := "begin") (by decide) (by decide)
  have hend := silent_word hws (w := "end") (by decide) (by decide)
  have hblock : Text.Silent ws (Text.inBlock (Mask.mask r.body) ++ [';']) := by
    show Text.Silent ws ("begin\n".toList ++ Mask.mask r.body ++ "\nend".toList ++ [';'])
    rw [List.append_assoc, List.append_assoc]
    exact hbegin.append_cons rfl
      (hbody.append_cons rfl (hend.append_cons rfl (Text.says_nil.silent hws)))
  exact (r.silent_renderHeading hws owner).append_cons rfl hblock

omit hws in
/-- Texts that are silent are so one behind the other, with spaces between them. -/
theorem silent_spaced {α : Type} {f : α → Text} {xs : List α} {rest : Text}
    (h : ∀ x ∈ xs, (f x).Silent ws) (hnil : Text.Silent ws []) (hrest : rest.Silent ws)
    (hhead : rest.head?.any Text.isWordChar = false) :
    Text.Silent ws ((xs.flatMap fun x => ' ' :: f x) ++ rest) := by
  induction xs with
  | nil => exact hrest
  | cons x xs ih =>
    have hothers := ih fun y hy => h y (by simp [hy])
    rw [List.flatMap_cons, List.append_assoc]
    refine Text.Silent.append (Text.Silent.append_cons hnil rfl (h x (by simp))) hothers ?_
    cases xs with
    | nil => exact hhead
    | cons y ys => rfl

/-- All that stands behind the classes is silent, if the masked bodies are. -/
theorem silent_epilogue (u : Blueprint)
    (hbodies : ∀ i ∈ u.implementations, (Mask.mask i.2.body).Silent ws) :
    (u.epilogue Mask.mask).Silent ws := by
  have hnil : Text.Silent ws [] := Text.says_nil.silent hws
  have hend : Text.Silent ws " end.".toList :=
    hnil.append_cons rfl
      ((silent_word hws (w := "end") (by decide) (by decide)).append_cons rfl hnil)
  have hbodies : Text.Silent ws (bodies Mask.mask u.implementations ++ " end.".toList) := by
    rw [bodies]
    exact silent_spaced (fun i hi => i.2.silent_rendered hws i.1 (hbodies i hi)) hnil hend rfl
  have hword := silent_word hws (w := "implementation") (by decide) (by decide)
  have hparts := hnil.append_cons (c := ' ') rfl
    (hword.append hbodies (by cases u.implementations <;> rfl))
  exact silent_spaced (fun r _ => r.silent_renderHeading hws none) hnil hparts rfl

end

end Blueprint

end PascalAtlas
