import PascalAtlas.Proofs.Written

/-!
# The grammar reads blueprints

Each piece of a blueprint is built by the step of the grammar that is meant for it, and so the whole
text becomes the whole tree, without an error (`Blueprint.ofText_render`).

The grammar decides by the next two tokens, and a name is no reserved word to it but may be a
directive, a visibility or a modifier. A plain name is none of these (`PlainName.unreserved`), so a
field after a heading is not taken for a directive of that heading, and a field at the beginning of
a class not for a modifier of the class.
-/

namespace PascalAtlas

open Step (Runs idle_of_facing idle_loop idle_take idle_noteBodiless)

/-! ## Kinds without a meaning of their own -/

/-- A kind that is none of the reserved names. -/
def TokenKind.Unreserved (k : TokenKind) : Prop :=
  ∀ word ∈ reservedNames, k.isWord word = false

/-- A plain name is no directive, visibility or modifier. -/
theorem PlainName.unreserved (x : PlainName) : (TokenKind.ident x.text).Unreserved :=
  fun _ hword => x.not_reserved hword

theorem TokenKind.unreserved_keyword (k : Keyword) :
    (TokenKind.keyword k).Unreserved := fun _ _ => rfl

/-- So no test for one of these holds before it. -/
theorem TokenKind.Unreserved.oneOf {k : TokenKind} (hk : k.Unreserved) {words : List Text}
    (hwords : ∀ word ∈ words, word ∈ reservedNames) (part : UnitPart) (k' : TokenKind) :
    (Test.oneOf words).holds (State.before part k k') = false := by
  induction words with
  | nil => rfl
  | cons word words ih =>
    rw [Test.oneOf, List.map_cons, Test.any, Test.holds, Bool.or_eq_false_iff]
    exact ⟨hk word (hwords word (by simp)), ih fun w hw => hwords w (by simp [hw])⟩

/-! ## Names -/

variable {part : UnitPart} {slack : Nat} {P : TokenKind → Prop}

namespace DottedName

/-- Dots and names are read by a loop, up to what is no dot. -/
theorem parses_parts {body : Step} {Q : TokenKind → Prop}
    (hbody : ∀ x, (DottedName.part x).Parses part slack body Q) (hdot : Q (.symbol .dot))
    (hPQ : ∀ k, P k → Q k) (hP : ∀ k, P k → k ≠ .symbol .dot) (xs : List PlainName) :
    (parts xs).Parses part slack (.loop Grammar.dottedPart body) P := by
  refine Piece.parses_loop xs (fun x _ => hbody x) (fun x n => List.cons_ne_nil _ _)
    (fun x _ n rest => rfl)
    (fun x _ n rest => hdot) hPQ fun k k' hk => ?_
  have hne : (Test.symbol .dot).holds (State.before part k k') = false :=
    TokenKind.sameShape_of_ne (hP k hk) rfl
  rw [Grammar.dottedPart, Test.holds, hne, Bool.false_and]

/-- A name with dots is read up to where no dot follows. -/
theorem parses_piece (d : DottedName) :
    d.piece.Parses part slack Grammar.dottedName fun k => k ≠ .symbol .dot := by
  have hothers : (parts d.others).Parses part slack (.loop Grammar.dottedPart (.seq .bump .bump))
      fun k => k ≠ .symbol .dot :=
    parses_parts (Q := fun _ => True)
      (fun x => (Piece.parses_bump (by simp) _).last.after_token (Piece.parses_bump (by simp) _))
      trivial
      (fun _ _ => trivial) (fun _ hk => hk) _
  exact hothers.after_token (Piece.parses_expectIdent _)

end DottedName

namespace Blueprint

/-! ## The header and the used units -/

/-- The header of a unit. -/
theorem parses_headerPiece (name : DottedName) :
    (headerPiece name).Parses part slack Grammar.unitHeader P := by
  have hsemi : (Piece.concat [.symbol .semi]).Parses part slack
      (.seq (Grammar.optionalBracketed .lParen .rParen) (Step.expect (.symbol .semi))) P :=
    (Piece.parses_expect (by simp) _).last.after_idle fun _ _ _ => idle_of_facing rfl
  have hname := (name.parses_piece.after_blank [' ']).seq hsemi (fun _ => Nat.le_add_right _ _)
    fun n rest _ => (by decide : TokenKind.symbol .semi ≠ .symbol .dot)
  exact .node (hname.after_token (Piece.parses_bump (by simp) _))
    ((Piece.starts_token _ _).append _)
    (((Piece.stops_token _ _).concat.append _).append _) _

/-- What may follow a used unit: no dot, and no file that the unit is in. -/
def EndsUsed (k : TokenKind) : Prop :=
  k ≠ .symbol .dot ∧ k ≠ .keyword .kwIn

theorem endsUsed_symbol {s : Symbol} (hs : s ≠ .dot) : EndsUsed (.symbol s) :=
  ⟨by simpa using hs, by simp⟩

/-- One of the used units. -/
theorem parses_usedUnit (d : DottedName) : d.piece.Parses part slack Grammar.usedUnit EndsUsed := by
  refine (d.parses_piece.mono (Nat.le_refl _) fun k hk => hk.1).then_idle fun k k' hk =>
    idle_of_facing ?_
  have hin : (Test.keyword .kwIn).holds (State.before part k k') = false :=
    TokenKind.sameShape_of_ne hk.2 rfl
  exact if_neg (by simp [hin])

/-- The used units after the first one. -/
theorem parses_otherUnits (others : List DottedName) :
    (Piece.concat (others.map fun d => .concat [.symbol .comma, d.piece.spaced])).Parses part slack
      (.loop (.symbol .comma) (.seq .bump Grammar.usedUnit)) (· = .symbol .semi) := by
  refine Piece.parses_loop (Q := EndsUsed) others (fun d _ => ?_) (fun d n => List.cons_ne_nil _ _)
    (fun d _ n rest => rfl) (fun d _ n rest => endsUsed_symbol (by decide)) (fun k hk => ?_)
    fun k k' hk => ?_
  · exact ((parses_usedUnit d).after_blank _).last.after_token (Piece.parses_bump (by simp) _)
  · rw [hk]
    exact endsUsed_symbol (by decide)
  · rw [hk]
    rfl

/-- The list of the used units, up to its `;`. -/
theorem parses_usesPiece (first : DottedName) (others : List DottedName) :
    (usesPiece (first :: others)).Parses part slack Grammar.usesClause P := by
  have hsemi : (Piece.concat [.symbol .semi]).Parses part slack (Step.expect (.symbol .semi)) P :=
    (Piece.parses_expect (by simp) _).last
  have hlist := (parses_otherUnits others).seq hsemi (fun _ => Nat.le_add_right _ _)
    fun _ _ _ => rfl
  have hfirst := ((parses_usedUnit first).after_blank [' ']).seq hlist
    (fun _ => Nat.le_add_right _ _)
    fun n rest _ => by cases others <;> exact endsUsed_symbol (by decide)
  exact .after_blank (.node (hfirst.after_token (Piece.parses_bump (by simp) _))
    ((Piece.starts_token _ _).append _)
    ((((Piece.stops_token _ _).concat.append _).append _).append _) _) _

/-! ## Headings -/

/-- What may follow a type. -/
def EndsType (k : TokenKind) : Prop :=
  Grammar.endsType k = true

/-- A type that is a single name ends before what ends a type. -/
theorem parses_typeName (type : PlainName) :
    type.piece.Parses part slack (.take (.typeRef Grammar.endsType)) EndsType := by
  intro n b s rest hs hrest _ _
  have hstop : ((Scan.typeRef Grammar.endsType).run {} rest).1 = 0 := by
    cases rest with
    | nil => rfl
    | cons t ts =>
      have hends : Grammar.endsType t.kind = true := hrest
      have hscan : Scan.typeRef Grammar.endsType {} t.kind (headKind ts) = .stop :=
        if_pos (by rw [hends]; rfl)
      rw [Scan.run, hscan]
      split <;> rfl
  have hscan : ((Scan.typeRef Grammar.endsType).run {} s.rest).1
      = (type.piece.tokens n).length := by
    rw [hs]
    show ((Scan.typeRef Grammar.endsType).run {} (⟨.ident type.text, _, _⟩ :: rest)).1 = 1
    rw [Scan.run_go (by simp) rfl]
    show _ + 1 = 1
    rw [hstop]
  have hrun : Runs Grammar.rules b (.take (.typeRef Grammar.endsType)) s _ := .take
  rw [hscan, State.advance_eq hs] at hrun
  exact hrun

/-- The type of a field or a result. -/
theorem parses_typePiece (type : PlainName) :
    (typePiece type).Parses part slack (Grammar.typeUpTo Grammar.endsType) EndsType :=
  (parses_typeName type).node (Piece.starts_token _ _) (Piece.stops_token _ _) _

/-- No parameter is a bracket. -/
theorem flat_parameterList (ps : List Parameter) : (parameterList ps).Flat Piece.Unbracketed := by
  have hident (x : PlainName) : x.piece.Flat Piece.Unbracketed :=
    Piece.flat_token (by simp [Piece.Unbracketed]) _
  have hsymbol {s : Symbol} (hs : s = .colon ∨ s = .semi) :
      (Piece.symbol s).Flat Piece.Unbracketed := by
    obtain rfl | rfl := hs <;> exact Piece.flat_token (by simp [Piece.Unbracketed]) _
  have hspaced {p : Piece} (hp : p.Flat Piece.Unbracketed) : p.spaced.Flat Piece.Unbracketed :=
    (Piece.flat_blank _).append hp
  have hparameter (p : Parameter) : p.piece.Flat Piece.Unbracketed := by
    obtain ⟨name, _ | type⟩ := p
    · exact hident name
    · exact (hident name).append ((hspaced (hsymbol (.inl rfl))).append
        ((hspaced (hident type)).append (Piece.flat_blank _)))
  cases ps with
  | nil => exact Piece.flat_blank _
  | cons p ps =>
    refine (hparameter p).append (Piece.flat_concat fun q hq => ?_)
    obtain ⟨q, -, rfl⟩ := List.mem_map.1 hq
    exact (hsymbol (.inr rfl)).append ((hspaced (hparameter q)).append (Piece.flat_blank _))

/-- The parameters of a routine, with their brackets. -/
theorem Routine.parses_paramsPiece (r : Routine) :
    r.paramsPiece.Parses part slack Grammar.formalParams P :=
  .node (Piece.parses_bracketed (flat_parameterList _)) ((Piece.starts_token _ _).append _)
    (((Piece.stops_token _ _).concat.append _).append _) _

/-- The result of a function, if there is one. -/
theorem parses_resultPiece (result : Option PlainName) :
    (resultPiece result).Parses part slack
      (Step.when (.symbol .colon) (.seq .bump (Grammar.typeUpTo Grammar.endsType)))
        (· = .symbol .semi) := by
  cases result with
  | none =>
    refine Piece.parses_idle fun k k' hk => idle_of_facing ?_
    rw [hk]
    rfl
  | some type =>
    have htype : (typePiece type).Parses part slack (Grammar.typeUpTo Grammar.endsType)
        (· = .symbol .semi) := by
      refine (parses_typePiece type).mono (Nat.le_refl _) fun k hk => ?_
      rw [hk]
      rfl
    exact ((htype.after_blank [' ']).last.after_token (Piece.parses_bump (by simp) _)).facing
      fun n rest _ => rfl

/-- The words that may follow a heading are reserved names, and so no plain name is one. -/
theorem idle_directives {k : TokenKind} (hk : k.Unreserved) (k' : TokenKind) :
    (Step.loop Grammar.directive Grammar.directiveClause).Idle part k k' := by
  have hnone : (Test.oneOf Grammar.directives).holds (State.before part k k') = false :=
    hk.oneOf (fun word hword => by
      rw [reservedNames, List.append_assoc, List.append_assoc, List.mem_append, List.mem_append]
      exact .inr (.inl hword)) part k'
  refine idle_loop ?_
  rw [Grammar.directive, Test.holds, hnone, Bool.false_and]

/-- A heading, before anything that is **no directive**. -/
theorem Routine.parses_headingPiece (owner : Option PlainName) (r : Routine) :
    (r.headingPiece owner).Parses part slack Grammar.routineHeading TokenKind.Unreserved := by
  -- From the last sign backwards, and one `have` for each part of the heading.
  have hsemi : (Piece.concat [.symbol .semi]).Parses part slack
      (.seq Grammar.optionalSemi
        (.seq (.noteBodiless false) (.loop Grammar.directive Grammar.directiveClause)))
        TokenKind.Unreserved :=
    (Piece.Parses.facing (Piece.parses_bump (by simp) _) fun _ _ _ => rfl).last.then_idle
      fun k k' hk => idle_noteBodiless.seq (idle_directives hk k')
  have hdefault := hsemi.after_idle (a := Step.when (.symbol .eq) (.take .upToSemi))
    fun _ _ _ => idle_of_facing rfl
  have hresult := (parses_resultPiece r.form.result?).seq hdefault (fun _ => Nat.le_add_right _ _)
    fun _ _ _ => rfl
  have hparams : (r.paramsPiece.append
        ((resultPiece r.form.result?).append (.concat [.symbol .semi]))).Parses part
      slack _ TokenKind.Unreserved :=
    (Piece.Parses.facing (a := Step.when (.symbol .lParen) Grammar.formalParams)
      (P := fun _ => True) r.parses_paramsPiece fun _ _ _ => rfl).seq hresult
      (fun _ => Nat.le_add_right _ _) fun _ _ _ => trivial
  have hnames : (DottedName.parts (r.fullName owner).others).Parses part slack
      (.loop Grammar.dottedPart (.seq .bump (.seq .bump (Grammar.optionalBracketed .lt .gt))))
      (· = .symbol .lParen) := by
    refine DottedName.parses_parts (Q := fun k => k = .symbol .dot ∨ k = .symbol .lParen)
      (fun x => ?_) (.inl rfl)
      (fun k hk => .inr hk) (fun k hk => by rw [hk]; simp) _
    refine .after_token (.last
        (.then_idle (Piece.parses_bump (by simp) _) fun k k' hk => idle_of_facing ?_))
      (Piece.parses_bump (by simp) _)
    obtain rfl | rfl := hk <;> rfl
  have hgeneric := (hnames.seq hparams (fun _ => Nat.le_add_right _ _) fun _ _ _ => rfl).after_idle
    (a := Grammar.optionalBracketed .lt .gt) fun n rest _ => idle_of_facing (by cases owner <;> rfl)
  have hname := ((Piece.parses_expectIdent (P := fun _ => True)
    (r.fullName owner).first.text).after_blank [' ']).seq
    hgeneric (fun _ => Nat.le_add_right _ _) fun _ _ _ => trivial
  have hword : (Piece.keyword r.form.keyword).Parses part slack
      (.branch Grammar.routineWord .bump (.fail .routineKeyword)) fun _ => True :=
    (Piece.parses_bump (by simp) _).facing fun _ _ _ => by cases r.form <;> rfl
  refine .node (.after_idle (hname.after_token hword) fun n rest _ => idle_of_facing ?_)
    ((Piece.starts_token _ _).append _)
    ((((((Piece.stops_token _ _).concat.append _).append _).append _).append _).append _) _
  cases r.form <;> rfl

/-! ## Classes -/

/-- A field. -/
theorem Field.parses_piece (f : Field) : f.piece.Parses part slack Grammar.fieldDecl P := by
  have hsemi : (Piece.concat [.symbol .semi]).Parses part slack Grammar.optionalSemi P :=
    (Piece.Parses.facing (Piece.parses_bump (by simp) _) fun _ _ _ => rfl).last
  have htype := ((parses_typePiece f.type).after_blank [' ']).seq hsemi
    (fun _ => Nat.le_add_right _ _)
    fun _ _ _ => rfl
  have hcolon := htype.after_token
    (Piece.parses_expect (k := .symbol .colon) (by simp) Symbol.colon.spelling.toList)
  have hmore := hcolon.after_idle (a := .loop (.symbol .comma) (.seq .bump Step.expectIdent))
    fun _ _ _ => idle_loop rfl
  exact .node (hmore.after_token (Piece.parses_expectIdent _)) ((Piece.starts_token _ _).append _)
    ((((Piece.stops_token _ _).concat.append _).append _).append _) _

/-- A field begins with a name that is neither a visibility nor `strict`. -/
theorem facing_member_field (x : PlainName) :
    Grammar.member.facing (State.before part (.ident x.text) (.symbol .colon))
      = Grammar.fieldDecl := by
  have hstrict : (Test.word "strict".toList).holds (State.before part (.ident x.text)
      (.symbol .colon)) = false :=
    x.unreserved _ (by decide)
  have hvisible : (Test.oneOf Grammar.visibilities).holds (State.before part (.ident x.text)
      (.symbol .colon)) = false :=
    x.unreserved.oneOf (fun word hword => by simp [reservedNames, hword]) part _
  show (if (Test.word "strict".toList).holds _ then _ else
    if (Test.oneOf Grammar.visibilities).holds _ then _ else Grammar.fieldDecl) = _
  rw [if_neg (Bool.eq_false_iff.1 hstrict), if_neg (Bool.eq_false_iff.1 hvisible)]

/-- The kinds with which a member of a class or its `end` begins. -/
inductive StartsMember : TokenKind → Prop
  | field (x : PlainName) : StartsMember (.ident x.text)
  | method (f : RoutineForm) : StartsMember (.keyword f.keyword)
  | done : StartsMember (.keyword .kwEnd)

/-- What starts a member is no directive of the member before it. -/
theorem StartsMember.unreserved {k : TokenKind} (h : StartsMember k) : k.Unreserved := by
  cases h with
  | field x => exact x.unreserved
  | method f => exact TokenKind.unreserved_keyword _
  | done => exact TokenKind.unreserved_keyword _

/-- A member starts as members do. -/
theorem Member.startsMember (m : Member) (n : Nat) (rest : List Token) :
    StartsMember (headKind ((Member.piece m).tokens n ++ rest)) := by
  cases m with
  | inl f => exact .field f.name
  | inr m => exact .method m.form

/-- A member does not end the class. -/
theorem Member.not_classEnd (m : Member) (n : Nat) (rest : List Token) (k' : TokenKind) :
    Grammar.classEnd.holds (State.before part (headKind ((Member.piece m).tokens n ++ rest)) k')
      = false := by
  cases m with
  | inl f => rfl
  | inr m =>
    show Grammar.classEnd.holds (State.before part (.keyword m.form.keyword) k') = false
    cases m.form <;> rfl

/-- A member, field or method. -/
theorem Member.parses_piece (m : Member) :
    (Member.piece m).Parses part slack Grammar.member TokenKind.Unreserved := by
  cases m with
  | inl f => exact f.parses_piece.facing fun n rest _ => facing_member_field f.name
  | inr m =>
    refine (m.parses_headingPiece none).facing fun n rest _ => ?_
    show Grammar.member.facing (State.before part (.keyword m.form.keyword) (.ident m.name.text))
      = _
    cases m.form <;> rfl

/-- Nothing is left over between the members of a class and its `end`. -/
theorem Class.parses_members (c : Class) :
    (Piece.concat [c.membersPiece, (Piece.keyword .kwEnd).spaced]).Parses part slack
      Grammar.members P := by
  have hloop : c.membersPiece.Parses part slack
      (.loop (.not Grammar.classEnd) (.ifMoved (.guarded .pastMember Grammar.member) .skip
        (Step.errorToken .classBody))) (· = .keyword .kwEnd) := by
    refine Piece.parses_loop (Q := TokenKind.Unreserved) c.members (fun m _ => ?_) (fun m n => ?_)
      (fun m _ n rest => ?_) (fun m _ n rest => (Member.startsMember m _ rest).unreserved)
      (fun k hk => ?_) fun k k' hk => ?_
    · exact ((Member.parses_piece m).guarded.after_blank [' ']).ifMoved fun n => by
        cases m <;> exact List.cons_ne_nil _ _
    · cases m <;> exact List.cons_ne_nil _ _
    · rw [Test.holds, Bool.not_eq_true']
      exact Member.not_classEnd m (n + 1) rest _
    · rw [hk]
      exact TokenKind.unreserved_keyword _
    · rw [hk]
      rfl
  exact hloop.seq ((Piece.parses_expect (by simp) _).after_blank [' ']).last
    (fun _ => Nat.le_add_right _ _)
    fun _ _ _ => rfl

/-- What comes behind the ancestor of a class. -/
theorem Class.startsMember (c : Class) (n : Nat) (rest : List Token) :
    StartsMember (headKind ((Piece.concat [c.membersPiece, (Piece.keyword .kwEnd).spaced]).tokens n
        ++ rest)) := by
  rw [Piece.concat, Piece.tokens_append, List.append_assoc, membersPiece]
  cases c.members with
  | nil => exact .done
  | cons m ms =>
    rw [List.map_cons, Piece.concat, Piece.tokens_append, List.append_assoc]
    exact Member.startsMember m _ _

/-- The ancestor of a class, if it has one. -/
theorem parses_heritagePiece (ancestor : Option PlainName) :
    (heritagePiece ancestor).Parses part slack
      (Step.when (.symbol .lParen) (.node .heritage (Grammar.bracketed .lParen .rParen)))
        StartsMember := by
  cases ancestor with
  | none => exact Piece.parses_idle fun k k' hk => idle_of_facing (by cases hk <;> rfl)
  | some a =>
    have hname : a.piece.Flat Piece.Unbracketed := Piece.flat_token (by simp [Piece.Unbracketed]) _
    exact .facing (.node (Piece.parses_bracketed hname) ((Piece.starts_token _ _).append _)
      (((Piece.stops_token _ _).concat.append _).append _) _) fun _ _ _ => rfl

/-- What comes behind the word `class`: an ancestor or what comes behind it. -/
theorem Class.opens (c : Class) (n : Nat) (rest : List Token) {k : TokenKind}
    (hk : headKind (((heritagePiece c.ancestor).append
      (.concat [c.membersPiece, (Piece.keyword .kwEnd).spaced])).tokens n ++ rest) = k) :
    k = .symbol .lParen ∨ StartsMember k := by
  rw [← hk, Piece.tokens_append, List.append_assoc]
  cases c.ancestor with
  | none => exact .inr (c.startsMember _ rest)
  | some a => exact .inl rfl

/-- A class from `class` to `end`. -/
theorem Class.parses_bodyPiece (c : Class) : c.bodyPiece.Parses part slack Grammar.classType P := by
  have hmembers : (Piece.concat [c.membersPiece, (Piece.keyword .kwEnd).spaced]).Parses part slack
      (.branch (.symbol .semi) .skip Grammar.members) P := by
    refine c.parses_members.facing fun n rest _ => ?_
    have hstarts := c.startsMember n rest
    generalize headKind _ = k at hstarts
    cases hstarts <;> rfl
  have hheritage := (parses_heritagePiece c.ancestor).seq hmembers (fun _ => Nat.le_add_right _ _)
    fun n rest _ => c.startsMember n rest
  have hmodifiers := hheritage.after_idle
    (a := .loop (.oneOf ["abstract".toList, "sealed".toList]) .bump)
    fun n rest _ => by
      have hunreserved : TokenKind.Unreserved _ :=
        (c.opens n rest rfl).elim (fun h => h ▸ fun _ _ => rfl) (·.unreserved)
      exact idle_loop (hunreserved.oneOf (by decide) _ _)
  refine .node (.facing (hmodifiers.after_token (Piece.parses_bump (by simp) _)) fun _ _ _ => rfl)
    ((Piece.starts_token _ _).append _)
    ((((Piece.stops_token _ _).append _).concat.append _).append _ |>.append _) _

/-- The declaration of a class with a body is not taken for one without. -/
theorem facing_typeDecl_class {k : TokenKind} (hk : k = .symbol .lParen ∨ StartsMember k)
    (body otherwise : Step) (others : List (Test × Step)) :
    (Step.choose ((.keyword .kwClass, Step.choose
        [(.ahead (.symbol .semi), .bump), (.ahead (.keyword .kwOf), .take .upToSemi)]
          (.node .classType body)) :: others)
      otherwise).facing (State.before part (.keyword .kwClass) k) = .node .classType body := by
  obtain rfl | hk := hk
  · rfl
  · cases hk with
    | field x => rfl
    | method f => cases f <;> rfl
    | done => rfl

/-- The declaration of a class. -/
theorem Class.parses_piece (c : Class) : c.piece.Parses part slack Grammar.typeDecl P := by
  -- In the order of the text: the name, the equals sign, the body and the last sign.
  refine .node (.after_token ?_ (Piece.parses_expectIdent _)) ((Piece.starts_token _ _).append _)
    ((((Piece.stops_token _ _).concat.append _).append _).append _) _
  refine .after_idle ?_ fun _ _ _ => idle_of_facing rfl
  refine .seq (Q := fun _ => True) (.after_blank (Piece.parses_expect (by simp) _) _) ?_
    (fun _ => Nat.le_add_right _ _) fun _ _ _ => trivial
  refine .after_idle ?_ fun _ _ _ => idle_of_facing rfl
  have hbody (n : Nat) (rest : List Token) := @facing_typeDecl_class part _ (c.opens n rest rfl)
  refine .seq (Q := fun _ => True)
    (.after_blank (c.parses_bodyPiece.facing fun n rest _ => hbody _ rest _ _ _) _) ?_
    (fun _ => Nat.le_add_right _ _) fun _ _ _ => trivial
  exact (Piece.parses_expect (by simp) _).last.after_idle fun _ _ _ => idle_take rfl

/-- The section of the classes ends before a reserved word. -/
theorem parses_typesPiece (c : Class) (cs : List Class) :
    (typesPiece (c :: cs)).Parses part slack Grammar.typeSection fun k => ∃ w, k = .keyword w := by
  have hloop : (Piece.concat ((c :: cs).map fun c => c.piece.spaced)).Parses part slack
      (.loop (.and .ident (.any [.ahead (.symbol .eq), .ahead (.symbol .lt)]))
        (.guarded .toDeclaration Grammar.typeDecl))
      fun k => ∃ w, k = .keyword w := by
    refine Piece.parses_loop (Q := fun _ => True) (c :: cs)
      (fun d _ => d.parses_piece.guarded.after_blank [' '])
      (fun d n => List.cons_ne_nil _ _) (fun d _ n rest => rfl) (fun _ _ _ _ => trivial)
      (fun _ _ => trivial) ?_
    rintro k k' ⟨w, rfl⟩
    rfl
  exact .after_blank (hloop.last.after_token (Piece.parses_bump (by simp) _)) [' ']

/-! ## Routines -/

/-- In the interface part a routine is a heading. -/
theorem Routine.parses_declaredPiece (r : Routine) :
    r.declaredPiece.Parses .interface slack Grammar.routine TokenKind.Unreserved :=
  .node ((r.parses_headingPiece none).then_idle fun _ _ _ => idle_of_facing rfl)
    (Piece.starts_node _ _)
    (Piece.stops_node _ _) _

/-- The block of a routine, with **any** body between its words. -/
theorem Routine.parses_blockPiece (r : Routine) : r.blockPiece.Parses part 1 Grammar.compound P :=
  (Piece.exists_block r.isBody).choose_spec.2.2.1 part P

theorem Routine.trees_blockPiece (r : Routine) (n : Nat) :
    ∃ ts F, r.blockPiece.tokens n = Text.beginAt n :: ts
      ∧ r.blockPiece.trees n = [.node .compound n (n + r.blockPiece.size)
        (.leaf (Text.beginAt n) :: (F ++ [.leaf (Text.endAt r.body n)]))] :=
  (Piece.exists_block r.isBody).choose_spec.2.2.2 n

/-- A block begins with `begin`. -/
theorem Routine.headKind_blockPiece (r : Routine) (n : Nat) (rest : List Token) :
    headKind (r.blockPiece.tokens n ++ rest) = .keyword .kwBegin := by
  obtain ⟨ts, -, hts, -⟩ := r.trees_blockPiece n
  rw [hts]
  rfl

theorem Routine.headKind_body (r : Routine) (n : Nat) (rest : List Token) :
    headKind ((Piece.concat [r.blockPiece.spaced, .symbol .semi]).tokens n ++ rest)
      = .keyword .kwBegin := by
  rw [Piece.concat, Piece.tokens_append, List.append_assoc]
  exact r.headKind_blockPiece _ _

/-- The block of a routine and the sign behind it. -/
theorem Routine.parses_body (r : Routine) :
    (Piece.concat [r.blockPiece.spaced, .symbol .semi]).Parses part 1 Grammar.routineBody P := by
  refine .after_idle (.seq (Q := fun _ => True)
    (.after_blank (.facing r.parses_blockPiece fun n rest _ => ?_) _)
    (.last (.facing (Piece.parses_bump (by simp) _) fun _ _ _ => rfl))
    (fun _ => Nat.le_add_right _ _) fun _ _ _ => trivial) fun n rest _ => ?_
  · rw [r.headKind_blockPiece]
    rfl
  · rw [r.headKind_body]
    exact idle_loop rfl

/-- In the implementation part it is a heading and a block. -/
theorem Routine.parses_piece (owner : Option PlainName) (r : Routine) :
    (r.piece owner).Parses .implementation 1 Grammar.routine P := by
  refine .node (.seq (r.parses_headingPiece owner) (r.parses_body.facing fun n rest _ => rfl)
    (fun _ => Nat.le_add_right _ _) fun n rest _ => ?_) (.append (Piece.starts_node _ _) _)
    (((Piece.stops_token _ _).concat.append _).append _) _
  rw [r.headKind_body]
  exact TokenKind.unreserved_keyword _

end Blueprint

/-! ## The items of a unit -/

namespace State

/-- The same state in another part of the unit. -/
def into (part : UnitPart) (s : State) : State :=
  { s with part := part }

theorem Ready.into_eq {s : State} (h : s.Ready part) : s.into part = s := by
  rw [into, ← h.part_eq]

/-- A state that enters a part is ready in it. -/
theorem Ready.into {s : State} (h : s.Ready part) (part' : UnitPart) : (s.into part').Ready part' :=
  ⟨h.frames, rfl, h.bodiless, h.closed⟩

/-- Consuming, entering a part and consuming more is consuming all and entering the part. -/
theorem past_into (s : State) (r r' : List Token) (F G : List Tree) (part : UnitPart) :
    ((s.past r F).into part).past r' G = (s.past r' (F ++ G)).into part := by
  rw [← past_past s r]
  rfl

end State

namespace Piece

/-- **The unit goes on behind a piece**, perhaps in another part: a run of the grammar from the
state behind the piece gives one from the state before it. -/
def Leads (part part' : UnitPart) (P : TokenKind → Prop) (p : Piece) : Prop :=
  ∀ n b s rest, s.rest = p.tokens n ++ rest → P (headKind rest) → s.Ready part → s.rest.length < b →
    ∀ o, Runs Grammar.rules b Grammar.unit ((s.past rest (p.trees n)).into part') o →
      Runs Grammar.rules b Grammar.unit s o

/-- The unit ends with a piece. Nothing behind it is looked at. -/
def Closes (part : UnitPart) (p : Piece) : Prop :=
  ∀ n b s rest, s.rest = p.tokens n ++ rest → s.Ready part → s.rest.length < b →
    ∃ s', Runs Grammar.rules b Grammar.unit s (.ok s') ∧ s'.frames = Frame.grow (p.trees n) s.frames
      ∧ s'.errors = s.errors

variable {p q : Piece} {mid part' : UnitPart} {Q : TokenKind → Prop}

theorem headKind_append {ts : List Token} (hts : ts ≠ []) (rest : List Token) :
    headKind (ts ++ rest) = headKind ts := by
  cases ts with
  | nil => exact absurd rfl hts
  | cons t ts => rfl

/-- One item of the unit. -/
theorem leads_of_item (hkind : ∀ n, headKind (p.tokens n) ≠ .eof)
    (hitem : ∀ n b s rest, s.rest = p.tokens n ++ rest → P (headKind rest) → s.Ready part →
      s.rest.length < b → Runs Grammar.rules b Grammar.unitItem s
      (.ok ((s.past rest (p.trees n)).into part'))) :
    p.Leads part part' P := by
  intro n b s rest hs hrest hready hlen o hrun
  have hne : p.tokens n ≠ [] := by
    intro hnil
    have hnone := hkind n
    rw [hnil] at hnone
    exact hnone rfl
  have hshorter : rest.length < s.rest.length := by
    have hpos := List.length_pos_iff.2 hne
    rw [hs, List.length_append]
    omega
  refine .loop_round ?_ (.ifMoved_moved (hitem n b s rest hs hrest hready hlen) hshorter .skip)
    hshorter hrun
  have heof : s.kind.sameShape .eof = false := by
    refine TokenKind.sameShape_of_ne ?_ rfl
    rw [State.kind, hs, headKind_append hne]
    exact hkind n
  simp only [Test.holds, Test.eof, heof, hready.closed, Bool.or_false, Bool.not_false]

/-- An item of the unit leads on in its part. -/
theorem Parses.leads (h : p.Parses part 0 Grammar.unitItem P)
    (hkind : ∀ n, headKind (p.tokens n) ≠ .eof) :
    p.Leads part part P := by
  refine leads_of_item hkind fun n b s rest hs hrest hready hlen => ?_
  rw [(hready.past rest _).into_eq]
  exact h n b s rest hs hrest hready hlen

/-- Blanks lead nowhere else. -/
theorem leads_blank (t : Text) : (blank t).Leads part part P := by
  intro n b s rest hs _ hready _ o hrun
  have hpast : s.past rest [] = s := State.past_nil hs
  rw [(hready.past rest _).into_eq] at hrun
  exact hpast ▸ hrun

theorem Leads.after_blank (h : p.Leads part part' P) (t : Text) :
    ((blank t).append p).Leads part part' P :=
  fun _ b s rest hs hrest hready hlen => h _ b s rest hs hrest hready hlen

/-- One stretch of the unit and then another. -/
theorem Leads.append (hp : p.Leads part mid Q) (hq : q.Leads mid part' P)
    (hfollow : ∀ n rest, P (headKind rest) → Q (headKind (q.tokens n ++ rest))) :
    (p.append q).Leads part part' P := by
  intro n b s rest hs hrest hready hlen o hrun
  rw [tokens_append, List.append_assoc] at hs
  have hlen' : (q.tokens (n + p.size) ++ rest).length < b := by
    rw [hs, List.length_append] at hlen
    omega
  refine hp n b s _ hs (hfollow _ rest hrest) hready hlen o ?_
  refine hq (n + p.size) b _ rest rfl hrest ((hready.past _ _).into mid) hlen' o ?_
  rw [State.past_into]
  exact hrun

/-- A stretch that leads to the end closes the unit. -/
theorem Leads.closes (hp : p.Leads part mid Q) (hq : q.Closes mid)
    (hfollow : ∀ n rest, Q (headKind (q.tokens n ++ rest))) : (p.append q).Closes part := by
  intro n b s rest hs hready hlen
  rw [tokens_append, List.append_assoc] at hs
  have hlen' : (q.tokens (n + p.size) ++ rest).length < b := by
    rw [hs, List.length_append] at hlen
    omega
  obtain ⟨s', hrun, hframes, herrors⟩ :=
    hq (n + p.size) b _ rest rfl ((hready.past _ (p.trees n)).into mid) hlen'
  refine ⟨s', hp n b s _ hs (hfollow _ rest) hready hlen _ hrun, ?_, herrors⟩
  rw [hframes, trees_append, ← Frame.grow_grow]
  rfl

/-- Items of a part one after the other. -/
theorem leads_concat {ps : List Piece} (h : ∀ p ∈ ps, p.Leads part part P)
    (hP : ∀ p ∈ ps, ∀ n rest, P (headKind (p.tokens n ++ rest))) :
    (concat ps).Leads part part P := by
  induction ps with
  | nil => exact leads_blank _
  | cons p ps ih =>
    refine (h p (by simp)).append
      (ih (fun q hq => h q (by simp [hq])) fun q hq => hP q (by simp [hq]))
      fun n rest hrest => ?_
    cases ps with
    | nil => exact hrest
    | cons q qs =>
      rw [concat, tokens_append, List.append_assoc]
      exact hP q (by simp) _ _

/-- A word that opens a part of the unit. -/
theorem leads_enter {w : Keyword}
    (hfacing : ∀ part k', Grammar.unitItem.facing (State.before part (.keyword w) k')
      = .seq (.enter part') .bump) :
    (keyword w).Leads part part' P := by
  refine leads_of_item (fun n => by simp [keyword, token, headKind])
    fun n b s rest hs _ hready _ => ?_
  refine .of_facing _ ?_
  rw [hready.facing_eq, State.kind, hs]
  refine hfacing part _ ▸ .seq_ok .enter ?_
  have hbump : (s.into part').bump = (s.past rest ((keyword w).trees n)).into part' :=
    State.bump_eq hs (by simp)
  have hrun : Runs Grammar.rules b .bump (s.into part') (.ok (s.into part').bump) := .bump
  rwa [hbump] at hrun

/-- The `end.` of the unit. -/
theorem closes_end : (concat [(keyword .kwEnd).spaced, symbol .dot]).Closes part := by
  intro n b s rest hs hready hlen
  obtain ⟨e, d, he, hd, htokens, htrees⟩ : ∃ e d : Token, e.kind = .keyword .kwEnd
      ∧ d.kind = .symbol .dot
      ∧ (concat [(keyword .kwEnd).spaced, symbol .dot]).tokens n = [e, d]
      ∧ (concat [(keyword .kwEnd).spaced, symbol .dot]).trees n = [.leaf e, .leaf d] :=
    ⟨_, _, rfl, rfl, rfl, rfl⟩
  rw [htokens] at hs
  have hfirst : s.bump = s.past (d :: rest) [.leaf e] := State.bump_eq hs (by simp [he])
  have hsecond : (s.past (d :: rest) [.leaf e]).bump = s.past rest [.leaf e, .leaf d] := by
    have hbump : (s.past (d :: rest) [.leaf e]).bump
        = (s.past (d :: rest) [.leaf e]).past rest [.leaf d] :=
      State.bump_eq rfl (by simp [hd])
    rw [hbump, State.past_past]
    rfl
  have hdot : (Test.symbol .dot).holds (s.past (d :: rest) [.leaf e]) = true := by
    show d.kind.sameShape _ = true
    rw [hd]
    rfl
  -- The `.` closes the unit, which ends the loop over its items.
  have hitem : Runs Grammar.rules b Grammar.unitItem s
      (.ok { s.past rest [.leaf e, .leaf d] with closed := true }) := by
    refine .of_facing _ ?_
    rw [hready.facing_eq, State.kind, hs, List.cons_append, headKind, he]
    refine .seq_ok (hfirst ▸ .bump) (.branch_yes hdot (.seq_ok (hsecond ▸ .bump) .noteClosed))
  have hshorter : rest.length < s.rest.length := by
    rw [hs, List.length_append]
    exact Nat.lt_add_of_pos_left (Nat.succ_pos _)
  have hopen : (Test.not (.or .eof .closed)).holds s = true := by
    simp only [Test.holds, Test.eof, State.kind, hs, List.cons_append, headKind, he, hready.closed]
    rfl
  refine ⟨_, .loop_round hopen (.ifMoved_moved hitem hshorter .skip) hshorter (.loop_done ?_), ?_,
    rfl⟩
  · simp [Test.holds]
  · rw [htrees]
    rfl

end Piece

/-! ## The whole unit -/

namespace Blueprint

/-- A declaration of the unit begins with a reserved word. -/
def StartsItem (k : TokenKind) : Prop :=
  ∃ w, k = .keyword w

/-- The header leads on. -/
theorem leads_headerPiece (name : DottedName) : (headerPiece name).Leads part part P :=
  ((parses_headerPiece name).guarded.facing fun _ _ _ => rfl).leads fun n => by
    show TokenKind.keyword .kwUnit ≠ .eof
    simp

/-- So do the used units, if there are any. -/
theorem leads_usesPiece (used : List DottedName) : (usesPiece used).Leads part part P := by
  cases used with
  | nil => exact Piece.leads_blank _
  | cons first others =>
    refine ((parses_usesPiece first others).guarded.facing fun _ _ _ => rfl).leads fun n => ?_
    show TokenKind.keyword .kwUses ≠ .eof
    simp

/-- So does a section of classes. -/
theorem leads_typesPiece (classes : List Class) :
    (typesPiece classes).Leads part part StartsItem := by
  cases classes with
  | nil => exact Piece.leads_blank _
  | cons c cs =>
    refine ((parses_typesPiece c cs).guarded.facing fun _ _ _ => rfl).leads fun n => ?_
    show TokenKind.keyword .kwType ≠ .eof
    simp

/-- A routine is an item of the part in which it is declared. -/
theorem leads_routine {p : Piece} {f : RoutineForm} (h : p.Parses part 1 Grammar.routine StartsItem)
    (hp : ∀ n, ∃ t ts, p.tokens n = t :: ts ∧ t.kind = .keyword f.keyword) :
    p.spaced.Leads part part StartsItem := by
  have hcall : p.Parses part 0 (Grammar.declaration (.call .routine)) StartsItem :=
    (Piece.Parses.call h).guarded
  refine .after_blank (Piece.Parses.leads (hcall.facing ?_) ?_) _
  · intro n rest _
    obtain ⟨t, ts, htokens, hkind⟩ := hp n
    rw [htokens, List.cons_append, headKind, hkind]
    cases f <;> rfl
  · intro n
    obtain ⟨t, ts, htokens, hkind⟩ := hp n
    rw [htokens, headKind, hkind]
    simp

/-- The tokens of a heading begin with its reserved word. -/
theorem Routine.tokens_headingPiece (owner : Option PlainName) (r : Routine) (n : Nat) :
    ∃ t ts, (r.headingPiece owner).tokens n = t :: ts ∧ t.kind = .keyword r.form.keyword :=
  ⟨_, _, rfl, rfl⟩

/-- What starts an item is no directive of the heading before it. -/
theorem StartsItem.unreserved {k : TokenKind} (h : StartsItem k) : k.Unreserved := by
  obtain ⟨w, rfl⟩ := h
  exact TokenKind.unreserved_keyword w

/-- A heading in the interface part leads on. -/
theorem Routine.leads_declaredPiece (r : Routine) :
    r.declaredPiece.spaced.Leads .interface .interface StartsItem :=
  leads_routine (r.parses_declaredPiece.mono (Nat.le_refl _) fun _ hk => hk.unreserved)
    (r.tokens_headingPiece none)

/-- A routine in the implementation part leads on. -/
theorem Routine.leads_piece (owner : Option PlainName) (r : Routine) :
    (r.piece owner).spaced.Leads .implementation .implementation StartsItem :=
  leads_routine (r.parses_piece owner) fun _ => ⟨_, _, rfl, rfl⟩

/-- **The whole interface part** leads on. -/
theorem leads_interfacePiece (u : Blueprint) :
    u.interfacePiece.Leads .interface .interface StartsItem := by
  have hdeclared : (Piece.concat (u.procedures.map fun r => r.declaredPiece.spaced)).Leads
      .interface .interface
      StartsItem := by
    refine Piece.leads_concat (fun p hp => ?_) fun p hp n rest => ?_ <;> obtain ⟨r, -, rfl⟩ :=
      List.mem_map.1 hp
    · exact r.leads_declaredPiece
    · exact ⟨_, rfl⟩
  refine (leads_typesPiece u.classes).append
    (hdeclared.append (Piece.leads_blank _) fun _ _ hrest => hrest)
    fun n rest hrest => ?_
  rw [Piece.concat, Piece.tokens_append, List.append_assoc]
  cases u.procedures with
  | nil => exact hrest
  | cons r rs => exact ⟨_, rfl⟩

/-- So does the whole implementation part. -/
theorem leads_implementationPiece (u : Blueprint) :
    u.implementationPiece.Leads .implementation .implementation StartsItem := by
  refine Piece.leads_concat (fun p hp => ?_) fun p hp n rest => ?_ <;> obtain ⟨x, -, rfl⟩ :=
    List.mem_map.1 hp
  · exact x.2.leads_piece x.1
  · exact ⟨_, rfl⟩

/-- **The grammar reads the whole unit.** -/
theorem closes_piece (u : Blueprint) : u.piece.Closes .start := by
  refine (leads_headerPiece u.name).closes (Q := fun _ => True) ?_ fun _ _ => trivial
  refine (leads_usesPiece u.uses).closes (Q := fun _ => True) ?_ fun _ _ => trivial
  refine (Piece.leads_enter (fun _ _ => rfl)).after_blank [' '] |>.closes (Q := fun _ => True) ?_
    fun _ _ => trivial
  refine (leads_interfacePiece u).closes ?_ fun _ _ => ⟨_, rfl⟩
  refine (Piece.leads_enter (fun _ _ => rfl)).after_blank [' '] |>.closes (Q := fun _ => True) ?_
    fun _ _ => trivial
  exact (leads_implementationPiece u).closes Piece.closes_end fun _ _ => ⟨_, rfl⟩

/-- **The tree of a source text** that a blueprint is written as: it has the trees of the piece
under its root, and there are no errors. -/
theorem ofText_render (u : Blueprint) :
    ∃ root, SyntaxTree.ofText u.render = .ok ⟨root, []⟩ ∧ root.children = u.piece.trees 0 := by
  have hlex : Token.lex u.render
      = .ok (u.piece.tokens 0 ++ [⟨.eof, u.piece.size, u.piece.size⟩]) := by
    have hlexes := u.lexes_piece 0 [] rfl
    rw [List.append_nil, u.text_piece, Nat.zero_add, Token.lexFrom] at hlexes
    exact hlexes
  generalize hrest : [(⟨.eof, u.piece.size, u.piece.size⟩ : Token)] = rest at hlex
  obtain ⟨s, hrun, hframes, herrors⟩ :=
    u.closes_piece 0 _ (State.initial (u.piece.tokens 0 ++ rest)) rest rfl
    ⟨List.cons_ne_nil _ _, rfl, rfl, rfl⟩ (Nat.lt_succ_self _)
  have hstate : Token.parseState (u.piece.tokens 0 ++ rest) = s := by
    have hrun' : Grammar.unit.run _ (State.initial (u.piece.tokens 0 ++ rest)) = .ok s :=
      hrun.run_eq _ (Nat.le_refl _)
    exact congrArg Outcome.state hrun'
  refine ⟨s.root, ?_, ?_⟩
  · rw [SyntaxTree.ofText, hlex]
    show Except.ok (Token.parse _) = _
    rw [Token.parse, hstate, herrors]
    rfl
  · rw [root_eq hframes, Tree.children_ofChildren]
    rfl

end Blueprint

end PascalAtlas
