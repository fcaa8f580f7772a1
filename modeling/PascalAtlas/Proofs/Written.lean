import PascalAtlas.Proofs.Block

/-!
# Blueprints as pieces

The text of a blueprint is a piece made of pieces, one for each name, heading, class and routine.
What is shown here is that the pieces have the **text** that a blueprint is written as
(`Blueprint.text_piece`), and that this text is read as their **tokens** (`Blueprint.lexes_piece`).

A declaration is followed by a blank, or by a sign that cannot go on with its last
token (`Piece.Apart`). Only the dots inside a name and before the end of the text stand
close to what they follow.
-/

namespace PascalAtlas

/-! ## Names -/

namespace PlainName

/-- A plain name begins as an identifier does and goes on as one. -/
theorem exists_cons (x : PlainName) :
    ∃ c cs, x.text = c :: cs ∧ Token.isIdentStart c = true
      ∧ ∀ d ∈ cs, Text.isIdentChar d = true := by
  have hplain := x.plain
  rw [Text.isPlain, Bool.and_eq_true, Bool.and_eq_true, Bool.and_eq_true] at hplain
  obtain ⟨⟨⟨hstart, hall⟩, -⟩, -⟩ := hplain
  cases htext : x.text with
  | nil =>
    rw [htext] at hstart
    cases hstart
  | cons c cs =>
    rw [htext] at hstart hall
    rw [List.all_cons, Bool.and_eq_true] at hall
    exact ⟨c, cs, rfl, hstart, fun d hd => List.all_eq_true.1 hall.2 d hd⟩

/-- A plain name is read as a name. -/
theorem wordKind_text (x : PlainName) : Token.wordKind x.text = .ident x.text := by
  have hplain := x.plain
  rw [Text.isPlain, Bool.and_eq_true, Bool.and_eq_true, Option.isNone_iff_eq_none] at hplain
  rw [Token.wordKind, hplain.1.2]

/-- No plain name is one of the reserved words. -/
theorem not_reserved (x : PlainName) {word : Text} (hword : word ∈ reservedNames) :
    Text.eqIgnoreCase x.text word = false := by
  have hplain := x.plain
  rw [Text.isPlain, Bool.and_eq_true, Bool.not_eq_true'] at hplain
  have hnone := hplain.2
  rw [Text.isOneOf, List.any_eq_false] at hnone
  exact Bool.eq_false_iff.2 (hnone word hword)

/-- A plain name as a piece. -/
def piece (x : PlainName) : Piece :=
  .ident x.text

/-- A name is read as one token. -/
theorem lexes_piece (x : PlainName) : x.piece.Lexes Piece.EndsWord := by
  obtain ⟨c, cs, htext, hc, hcs⟩ := x.exists_cons
  have hkind := x.wordKind_text
  rw [piece, Piece.ident, ← hkind, htext]
  exact Piece.lexes_word hc hcs

/-- No symbol goes on with a name. -/
theorem endsSign (x : PlainName) (rest : Text) : Piece.EndsSign (x.text ++ rest) := by
  obtain ⟨c, cs, htext, hc, -⟩ := x.exists_cons
  rw [htext, Piece.EndsSign, List.cons_append, Token.headIs]
  simp only [Bool.or_eq_false_iff, beq_eq_false_iff_ne]
  refine ⟨⟨?_, ?_⟩, ?_⟩ <;>
  · rintro rfl
    revert hc
    decide

end PlainName

namespace Piece

/-- Neither a word nor a symbol goes on with this text. -/
def Apart (rest : Text) : Prop :=
  EndsWord rest ∧ EndsSign rest

theorem apart_space (rest : Text) : Apart (' ' :: rest) := ⟨rfl, rfl⟩

/-- A piece after a space. -/
def spaced (p : Piece) : Piece :=
  (blank [' ']).append p

theorem trees_spaced (p : Piece) (n : Nat) : p.spaced.trees n = p.trees (n + Text.size [' ']) := rfl

/-- A space before a piece does not change its tokens. -/
theorem Lexes.spaced {p : Piece} {P : Text → Prop} (hp : p.Lexes P) : p.spaced.Lexes P :=
  hp.after_blank (by decide)

/-- Declarations with spaces between them. -/
theorem lexes_spaced {α : Type} {f : α → Piece} {xs : List α} (h : ∀ x ∈ xs, (f x).Lexes Apart) :
    (concat (xs.map fun x => (f x).spaced)).Lexes Apart := by
  refine lexes_concat fun p hp => ?_
  obtain ⟨x, hx, rfl⟩ := List.mem_map.1 hp
  exact ⟨(h x hx).spaced, fun rest => apart_space _⟩

/-- Pieces after spaces stand apart from what is before them. -/
theorem apart_spaced {α : Type} (f : α → Piece) (xs : List α) {rest : Text} (hrest : Apart rest) :
    Apart ((concat (xs.map fun x => (f x).spaced)).text ++ rest) := by
  refine ends_concat (fun p hp rest => ?_) hrest
  obtain ⟨x, -, rfl⟩ := List.mem_map.1 hp
  exact apart_space _

/-- Pieces after spaces, and their texts. -/
theorem text_spaced {α : Type} (f : α → Piece) (xs : List α) :
    (concat (xs.map fun x => (f x).spaced)).text = xs.flatMap fun x => ' ' :: (f x).text := by
  rw [text_concat, List.flatMap_map]
  rfl

end Piece

namespace DottedName

/-- A dot and a name. -/
def part (x : PlainName) : Piece :=
  .concat [.symbol .dot, x.piece]

/-- The dots and names after the first name. -/
def parts (xs : List PlainName) : Piece :=
  .concat (xs.map part)

/-- A dotted name as a piece. -/
def piece (d : DottedName) : Piece :=
  d.first.piece.append (parts d.others)

/-- The parts of a name are written after dots. -/
theorem text_parts (xs : List PlainName) : (parts xs).text = xs.flatMap fun x => '.' :: x.text := by
  rw [parts, Piece.text_concat, List.flatMap_map]
  refine List.flatMap_congr fun x _ => ?_
  show ".".toList ++ (x.text ++ []) = _
  rw [List.append_nil]
  rfl

/-- The piece for a name has **its text**. -/
theorem text_piece (d : DottedName) : d.piece.text = d.text := by
  rw [piece, Piece.text_append, text_parts]
  rfl

theorem lexes_part (x : PlainName) : (part x).Lexes Piece.EndsWord :=
  (Piece.lexes_symbol (by decide)).append x.lexes_piece.last fun rest _ => by
    show Piece.EndsSign (x.text ++ [] ++ rest)
    rw [List.append_assoc]
    exact x.endsSign _

/-- Names after dots are read one by one. -/
theorem lexes_parts (xs : List PlainName) : (parts xs).Lexes Piece.EndsWord := by
  refine Piece.lexes_concat fun p hp => ?_
  obtain ⟨x, -, rfl⟩ := List.mem_map.1 hp
  exact ⟨lexes_part x, fun rest => rfl⟩

theorem endsWord_parts (xs : List PlainName) {rest : Text} (hrest : Piece.EndsWord rest) :
    Piece.EndsWord ((parts xs).text ++ rest) := by
  refine Piece.ends_concat (fun p hp rest => ?_) hrest
  obtain ⟨x, -, rfl⟩ := List.mem_map.1 hp
  rfl

/-- A name with dots is read as **its tokens**. -/
theorem lexes_piece (d : DottedName) : d.piece.Lexes Piece.EndsWord :=
  d.first.lexes_piece.append (lexes_parts d.others) fun _ hrest => endsWord_parts d.others hrest

end DottedName

namespace Blueprint

open Piece (Apart EndsWord EndsSign lexes_keyword lexes_symbol lexes_blank)

/-! ## Parameters -/

/-- A parameter as a piece. -/
def Parameter.piece (p : Parameter) : Piece :=
  match p.type with
  | none => p.name.piece
  | some type => .concat [p.name.piece, (Piece.symbol .colon).spaced, type.piece.spaced]

/-- The parameters of a routine as a piece. -/
def parameterList : List Parameter → Piece
  | [] => .blank []
  | p :: ps => p.piece.append (.concat (ps.map fun q => .concat [.symbol .semi, q.piece.spaced]))

/-- A parameter is written as it is rendered. -/
theorem Parameter.text_piece (p : Parameter) : p.piece.text = p.param.render := by
  obtain ⟨name, _ | type⟩ := p
  · rfl
  · obtain ⟨c, cs, htext, -⟩ := type.exists_cons
    show name.text ++ (' ' :: ":".toList ++ (' ' :: type.text ++ []))
      = Param.render ⟨name.text, type.text⟩
    rw [Param.render, htext, if_neg (by simp), List.append_nil, List.append_assoc]
    rfl

theorem text_parameterList (ps : List Parameter) :
    (parameterList ps).text = Param.renderList (ps.map Parameter.param) := by
  cases ps with
  | nil => rfl
  | cons p ps =>
    rw [parameterList, Piece.text_append, Parameter.text_piece]
    induction ps generalizing p with
    | nil => exact List.append_nil _
    | cons q ps ih =>
      rw [List.map_cons, Piece.concat, Piece.text_append, ← List.append_assoc]
      show p.param.render ++ (";".toList ++ (' ' :: q.piece.text ++ [])) ++ _
        = p.param.render ++ "; ".toList ++ Param.renderList ((q :: ps).map Parameter.param)
      rw [← ih q, List.append_nil, Parameter.text_piece]
      simp only [List.append_assoc]
      rfl

theorem Parameter.endsSign (p : Parameter) (rest : Text) : EndsSign (p.piece.text ++ rest) := by
  obtain ⟨name, _ | type⟩ := p
  · exact name.endsSign rest
  · show EndsSign (name.text ++ _ ++ rest)
    rw [List.append_assoc]
    exact name.endsSign _

/-- A parameter is read as its tokens. -/
theorem Parameter.lexes_piece (p : Parameter) : p.piece.Lexes EndsWord := by
  obtain ⟨name, _ | type⟩ := p
  · exact name.lexes_piece
  · exact name.lexes_piece.append
      ((lexes_symbol (by decide)).spaced.append type.lexes_piece.spaced.last fun _ _ => rfl)
      fun _ _ => rfl

theorem lexes_parameterList (ps : List Parameter) : (parameterList ps).Lexes EndsWord := by
  cases ps with
  | nil => exact lexes_blank (by simp)
  | cons p ps =>
    have hothers : ∀ q ∈ ps.map fun q : Parameter => Piece.concat [.symbol .semi, q.piece.spaced],
        q.Lexes EndsWord ∧ ∀ rest, EndsWord (q.text ++ rest) := by
      intro q hq
      obtain ⟨q, -, rfl⟩ := List.mem_map.1 hq
      exact ⟨(lexes_symbol (by decide)).append q.lexes_piece.spaced.last fun _ _ => rfl,
        fun rest => rfl⟩
    exact p.lexes_piece.append (Piece.lexes_concat hothers) fun rest hrest =>
      Piece.ends_concat (fun q hq => (hothers q hq).2) hrest

theorem endsSign_parameterList (ps : List Parameter) {rest : Text} (hrest : EndsSign rest) :
    EndsSign ((parameterList ps).text ++ rest) := by
  cases ps with
  | nil => exact hrest
  | cons p ps =>
    rw [parameterList, Piece.text_append, List.append_assoc]
    exact p.endsSign _

/-! ## Headings -/

/-- The reserved word that opens a heading. -/
def RoutineForm.keyword : RoutineForm → Keyword
  | .procedure => .kwProcedure
  | .function _ => .kwFunction
  | .constructor => .kwConstructor
  | .destructor => .kwDestructor

/-- The keyword of a routine is the word for its kind. -/
theorem RoutineForm.spelling_keyword (f : RoutineForm) : f.keyword.spelling = f.kind.word := by
  cases f <;> rfl

/-- The name in a heading: that of the class comes first if there is one. -/
def Routine.fullName (owner : Option PlainName) (r : Routine) : DottedName :=
  match owner with
  | none => ⟨r.name, []⟩
  | some c => ⟨c, [r.name]⟩

/-- The parameters of a routine in their brackets. -/
def Routine.paramsPiece (r : Routine) : Piece :=
  .node .formalParams (.concat [.symbol .lParen, parameterList r.parameters, .symbol .rParen])

/-- A type as a piece. -/
def typePiece (type : PlainName) : Piece :=
  .node .typeRef type.piece

/-- The result of a function as a piece, which is empty for the other routines. -/
def resultPiece : Option PlainName → Piece
  | none => .blank []
  | some type => .concat [.symbol .colon, (typePiece type).spaced]

/-- What a heading is made of. -/
def Routine.headingParts (owner : Option PlainName) (r : Routine) : Piece :=
  .concat [.keyword r.form.keyword, (r.fullName owner).first.piece.spaced, DottedName.parts
    (r.fullName owner).others, r.paramsPiece, resultPiece r.form.result?, .symbol .semi]

/-- A heading as a piece. -/
def Routine.headingPiece (owner : Option PlainName) (r : Routine) : Piece :=
  .node .routineHeading (r.headingParts owner)

/-- The name of a method has its class in front. -/
theorem Routine.text_fullName (owner : Option PlainName) (r : Routine) :
    (r.fullName owner).text = (owner.map fun c => c.text ++ ['.']).getD [] ++ r.name.text := by
  cases owner with
  | none => exact List.append_nil _
  | some c =>
    show c.text ++ ('.' :: r.name.text ++ []) = c.text ++ ['.'] ++ r.name.text
    rw [List.append_nil, List.append_assoc]
    rfl

/-- A result is written after a colon. -/
theorem text_resultPiece (result : Option PlainName) :
    (resultPiece result).text = (result.map fun type => ": ".toList ++ type.text).getD [] := by
  cases result with
  | none => rfl
  | some type =>
    show ":".toList ++ (' ' :: type.text ++ []) = _
    rw [List.append_nil]
    rfl

/-- A heading has **the text** it is rendered as. -/
theorem Routine.text_headingPiece (owner : Option PlainName) (r : Routine) :
    (r.headingPiece owner).text = r.renderHeading owner := by
  show r.form.keyword.spelling.toList ++ (' ' :: (r.fullName owner).first.text
      ++ ((DottedName.parts (r.fullName owner).others).text
        ++ (("(".toList ++ ((parameterList r.parameters).text ++ (")".toList ++ [])))
          ++ ((resultPiece r.form.result?).text ++ (";".toList ++ []))))) = r.renderHeading owner
  rw [RoutineForm.spelling_keyword, DottedName.text_parts, text_parameterList, text_resultPiece]
  have hname := r.text_fullName owner
  rw [DottedName.text] at hname
  show _ = r.form.kind.word.toList ++ [' '] ++ (owner.map fun c => c.text ++ ['.']).getD
    [] ++ r.name.text
    ++ ['('] ++ Param.renderList (r.parameters.map Parameter.param) ++ [')']
    ++ (r.form.result?.map fun result => ": ".toList ++ result.text).getD [] ++ [';']
  rw [List.append_assoc _ _ r.name.text, ← hname]
  simp only [List.append_assoc, List.cons_append, List.nil_append]
  rfl

/-- Parameters in brackets are read as their tokens. -/
theorem Routine.lexes_paramsPiece (r : Routine) : r.paramsPiece.Lexes EndsSign := by
  refine .node _ ((lexes_symbol (by decide)).append ((lexes_parameterList r.parameters).append
    (lexes_symbol (by decide)).last fun _ _ => rfl) fun rest _ => ?_)
  rw [Piece.concat, Piece.text_append, List.append_assoc]
  exact endsSign_parameterList _ rfl

theorem lexes_typePiece (type : PlainName) : (typePiece type).Lexes EndsWord :=
  type.lexes_piece.node _

theorem lexes_resultPiece (result : Option PlainName) : (resultPiece result).Lexes EndsWord := by
  cases result with
  | none => exact lexes_blank (by simp)
  | some type =>
    exact (lexes_symbol (by decide)).append (lexes_typePiece type).spaced.last fun _ _ => rfl

/-- A heading is read as **its tokens**. -/
theorem Routine.lexes_headingPiece (owner : Option PlainName) (r : Routine) :
    (r.headingPiece owner).Lexes EndsSign := by
  have hsemi : (Piece.concat [.symbol .semi]).Lexes EndsSign := (lexes_symbol (by decide)).last
  have hresult := (lexes_resultPiece r.form.result?).append hsemi fun _ _ => rfl
  have hparams := r.lexes_paramsPiece.append hresult fun rest _ => by
    cases r.form.result? <;> rfl
  have hparts := (DottedName.lexes_parts (r.fullName owner).others).append hparams fun _ _ => rfl
  have hname := (r.fullName owner).first.lexes_piece.spaced.append hparts fun rest _ => by
    rw [Piece.text_append, List.append_assoc]
    exact DottedName.endsWord_parts _ rfl
  exact .node _ ((lexes_keyword _).append hname fun _ _ => rfl)

/-! ## Classes -/

/-- A field as a piece. -/
def Field.piece (f : Field) : Piece :=
  .node .fieldDecl (.concat
    [f.name.piece, .symbol .colon, (typePiece f.type).spaced, .symbol .semi])

/-- A member of a class: a field or the heading of a method. -/
abbrev Member := Field ⊕ Routine

/-- A member as a piece. -/
def Member.piece : Member → Piece
  | .inl f => f.piece
  | .inr m => m.headingPiece none

/-- The members of a class, the fields before the methods. -/
def Class.members (c : Class) : List Member :=
  c.fields.map .inl ++ c.methods.map .inr

/-- The ancestor of a class as a piece, which is empty if there is none. -/
def heritagePiece : Option PlainName → Piece
  | none => .blank []
  | some a => .node .heritage (.concat [.symbol .lParen, a.piece, .symbol .rParen])

/-- The members of a class as a piece. -/
def Class.membersPiece (c : Class) : Piece :=
  .concat (c.members.map fun m => (Member.piece m).spaced)

/-- What a class is made of, behind its name. -/
def Class.bodyParts (c : Class) : Piece :=
  .concat [.keyword .kwClass, heritagePiece c.ancestor, c.membersPiece,
    (Piece.keyword .kwEnd).spaced]

/-- A class without its name as a piece. -/
def Class.bodyPiece (c : Class) : Piece :=
  .node .classType c.bodyParts

/-- The declaration of a class as a piece. -/
def Class.piece (c : Class) : Piece :=
  .node .typeDecl (.concat [c.name.piece, (Piece.symbol .eq).spaced,
    c.bodyPiece.spaced, .symbol .semi])

/-- A field is written as it is rendered. -/
theorem Field.text_piece (f : Field) : f.piece.text = f.render := by
  show f.name.text ++ (":".toList ++ (' ' :: f.type.text ++ (";".toList ++ [])))
    = f.name.text ++ ": ".toList ++ f.type.text ++ [';']
  simp only [List.append_assoc]
  rfl

/-- An ancestor is written in brackets. -/
theorem text_heritagePiece (ancestor : Option PlainName) :
    (heritagePiece ancestor).text = (ancestor.map fun a => ['('] ++ a.text ++ [')']).getD [] := by
  cases ancestor with
  | none => rfl
  | some a => exact (List.append_assoc _ _ _).symm

/-- The members are written after spaces, fields before methods. -/
theorem Class.text_membersPiece (c : Class) :
    c.membersPiece.text = (c.fields.flatMap fun f => ' ' :: f.render)
      ++ c.methods.flatMap fun m => ' ' :: m.renderHeading none := by
  rw [membersPiece, Piece.text_spaced, members, List.flatMap_append, List.flatMap_map,
    List.flatMap_map]
  have hfields : ∀ f ∈ c.fields, ' ' :: (Member.piece (.inl f)).text = ' ' :: f.render :=
    fun f _ => congrArg (' ' :: ·) f.text_piece
  have hmethods : ∀ m ∈ c.methods, ' ' :: (Member.piece (.inr m)).text
      = ' ' :: m.renderHeading none :=
    fun m _ => congrArg (' ' :: ·) (m.text_headingPiece none)
  rw [List.flatMap_congr hfields, List.flatMap_congr hmethods]

/-- A class has **the text** it is rendered as. -/
theorem Class.text_piece (c : Class) : c.piece.text = c.render := by
  show c.name.text ++ (' ' :: "=".toList
    ++ (' ' :: ("class".toList ++ ((heritagePiece c.ancestor).text
      ++ (c.membersPiece.text ++ (' ' :: "end".toList ++ [])))) ++ (";".toList ++ []))) = c.render
  rw [text_heritagePiece, c.text_membersPiece]
  show _ = c.name.text ++ " = class".toList ++ (c.ancestor.map fun a => ['('] ++ a.text
    ++ [')']).getD []
    ++ (c.fields.flatMap fun f => ' ' :: f.render)
    ++ (c.methods.flatMap fun m => ' ' :: m.renderHeading none)
    ++ " end;".toList
  simp only [List.append_assoc, List.cons_append]
  rfl

/-- A field is read as its tokens. -/
theorem Field.lexes_piece (f : Field) : f.piece.Lexes EndsSign := by
  have htype := (lexes_typePiece f.type).spaced.append
    (lexes_symbol (s := .semi) (by decide)).last fun _ _ => rfl
  have hcolon := (lexes_symbol (s := .colon) (by decide)).append htype fun _ _ => rfl
  exact .node _ (f.name.lexes_piece.append hcolon fun _ _ => rfl)

theorem Member.lexes_piece (m : Member) : (Member.piece m).Lexes Apart := by
  cases m with
  | inl f => exact f.lexes_piece.mono fun _ hrest => hrest.2
  | inr m => exact (m.lexes_headingPiece none).mono fun _ hrest => hrest.2

theorem lexes_heritagePiece (ancestor : Option PlainName) :
    (heritagePiece ancestor).Lexes EndsSign := by
  cases ancestor with
  | none => exact lexes_blank (by simp)
  | some a =>
    have hname := a.lexes_piece.append (lexes_symbol (s := .rParen) (by decide)).last fun _ _ => rfl
    refine .node _ ((lexes_symbol (s := .lParen) (by decide)).append hname fun rest _ => ?_)
    rw [Piece.concat, Piece.text_append, List.append_assoc]
    exact a.endsSign _

theorem endsWord_heritagePiece (ancestor : Option PlainName) {rest : Text} (hrest : EndsWord rest) :
    EndsWord ((heritagePiece ancestor).text ++ rest) := by
  cases ancestor with
  | none => exact hrest
  | some a => rfl

/-- What is between the word `class` and its `end` is read as its tokens. -/
theorem Class.lexes_bodyPiece (c : Class) : c.bodyPiece.Lexes EndsWord := by
  have hend := (lexes_keyword .kwEnd).spaced.last
  have hmembers :=
    (Piece.lexes_spaced fun m (_ : m ∈ c.members) => Member.lexes_piece m).append hend
      fun rest _ => Piece.apart_space _
  -- What comes after the ancestor is a member or the end of the class, and there is
  -- a blank before each.
  have hapart : ∀ rest, Apart
      ((Piece.concat [c.membersPiece, (Piece.keyword .kwEnd).spaced]).text ++ rest) := by
    intro rest
    rw [Piece.concat, Piece.text_append, List.append_assoc]
    exact Piece.apart_spaced _ _ (Piece.apart_space _)
  have hheritage := (lexes_heritagePiece c.ancestor).append hmembers fun rest _ => (hapart rest).2
  refine .node _ ((lexes_keyword .kwClass).append hheritage fun rest _ => ?_)
  rw [Piece.concat, Piece.text_append, List.append_assoc]
  exact endsWord_heritagePiece _ (hapart rest).1

/-- A class is read as **its tokens**. -/
theorem Class.lexes_piece (c : Class) : c.piece.Lexes EndsSign := by
  have hbody := c.lexes_bodyPiece.spaced.append
    (lexes_symbol (s := .semi) (by decide)).last fun _ _ => rfl
  have heq := (lexes_symbol (s := .eq) (by decide)).spaced.append hbody fun _ _ => rfl
  exact .node _ (c.name.lexes_piece.append heq fun _ _ => rfl)

/-! ## Routines -/

/-- The block of a routine as a piece. -/
noncomputable def Routine.blockPiece (r : Routine) : Piece :=
  (Piece.exists_block r.isBody).choose

/-- The heading of a routine that stands for itself, as a piece. -/
def Routine.declaredPiece (r : Routine) : Piece :=
  .node .routineDecl (r.headingPiece none)

/-- A routine with its body as a piece. -/
noncomputable def Routine.piece (owner : Option PlainName) (r : Routine) : Piece :=
  .node .routineDecl (.concat [r.headingPiece owner, r.blockPiece.spaced, .symbol .semi])

theorem Routine.text_blockPiece (r : Routine) : r.blockPiece.text = Text.inBlock r.body :=
  (Piece.exists_block r.isBody).choose_spec.1

/-- A routine has **the text** it is rendered as. -/
theorem Routine.text_piece (owner : Option PlainName) (r : Routine) :
    (r.piece owner).text = r.render owner := by
  show (r.headingPiece owner).text ++ (' ' :: r.blockPiece.text ++ (";".toList ++ []))
    = r.renderHeading owner ++ [' '] ++ Text.inBlock r.body ++ [';']
  rw [r.text_headingPiece, r.text_blockPiece]
  simp only [List.append_assoc]
  rfl

theorem Routine.lexes_declaredPiece (r : Routine) : r.declaredPiece.Lexes EndsSign :=
  (r.lexes_headingPiece none).node _

/-- A routine with its body is read as **its tokens**. -/
theorem Routine.lexes_piece (owner : Option PlainName) (r : Routine) :
    (r.piece owner).Lexes EndsSign := by
  have hblock : r.blockPiece.Lexes EndsWord := (Piece.exists_block r.isBody).choose_spec.2.1
  have hsemi := hblock.spaced.append (lexes_symbol (s := .semi) (by decide)).last fun _ _ => rfl
  exact .node _ ((r.lexes_headingPiece owner).append hsemi fun _ _ => rfl)

/-! ## Units -/

/-- The header of a unit as a piece. -/
def headerPiece (name : DottedName) : Piece :=
  .node .unitHeader (.concat [.keyword .kwUnit, name.piece.spaced, .symbol .semi])

/-- The clause that names the used units, as a piece. -/
def usesPiece : List DottedName → Piece
  | [] => .blank []
  | first :: others =>
    .spaced (.node .usesClause (.concat [.keyword .kwUses, first.piece.spaced,
      .concat (others.map fun d => .concat [.symbol .comma, d.piece.spaced]), .symbol .semi]))

/-- The section that declares the classes, as a piece. -/
def typesPiece : List Class → Piece
  | [] => .blank []
  | c :: cs => .spaced (.concat [.keyword .kwType, .concat ((c :: cs).map fun c => c.piece.spaced)])

/-- The interface part of a unit, behind its first word. -/
def interfacePiece (u : Blueprint) : Piece :=
  .concat [typesPiece u.classes, .concat (u.procedures.map fun r => r.declaredPiece.spaced)]

/-- The bodies of a unit in the order in which they are written, each with the
class that owns it. -/
def implementations (u : Blueprint) : List (Option PlainName × Routine) :=
  (u.classes.flatMap fun c => c.methods.map fun m => (some c.name, m))
    ++ u.procedures.map fun r => (none, r)

/-- The implementation part of a unit, behind its first word. -/
noncomputable def implementationPiece (u : Blueprint) : Piece :=
  .concat (u.implementations.map fun x => (x.2.piece x.1).spaced)

/-- A unit as a piece. -/
noncomputable def piece (u : Blueprint) : Piece :=
  .concat [headerPiece u.name, usesPiece u.uses, (Piece.keyword .kwInterface).spaced,
    u.interfacePiece, (Piece.keyword .kwImplementation).spaced, u.implementationPiece,
    (Piece.keyword .kwEnd).spaced, .symbol .dot]

/-- The used units are written as they are rendered. -/
theorem text_usesPiece (used : List DottedName) : (usesPiece used).text = renderUses used := by
  cases used with
  | nil => rfl
  | cons first others =>
    have hothers :
        (Piece.concat (others.map fun d => .concat [.symbol .comma, d.piece.spaced])).text
        = others.flatMap fun d => ", ".toList ++ d.text := by
      rw [Piece.text_concat, List.flatMap_map]
      refine List.flatMap_congr fun d _ => ?_
      show ",".toList ++ (' ' :: d.piece.text ++ []) = _
      rw [List.append_nil, d.text_piece]
      rfl
    show ' ' :: ("uses".toList ++ (' ' :: first.piece.text ++ ((Piece.concat (others.map fun d =>
        .concat [.symbol .comma, d.piece.spaced])).text ++ (";".toList ++ []))))
      = " uses ".toList ++ first.text ++ (others.flatMap fun d => ", ".toList ++ d.text) ++ [';']
    rw [hothers, first.text_piece]
    simp only [List.append_assoc]
    rfl

theorem text_typesPiece (classes : List Class) :
    (typesPiece classes).text = renderTypes classes := by
  cases classes with
  | nil => rfl
  | cons c cs =>
    show ' ' :: ("type".toList
        ++ ((Piece.concat ((c :: cs).map fun c => c.piece.spaced)).text ++ []))
      = " type".toList ++ (c :: cs).flatMap fun c => ' ' :: c.render
    rw [List.append_nil, Piece.text_spaced]
    simp only [Class.text_piece]
    rfl

/-- The implementations are written methods before procedures. -/
theorem text_implementationPiece (u : Blueprint) :
    u.implementationPiece.text
      = (u.classes.flatMap fun c => c.methods.flatMap fun m => ' ' :: m.render (some c.name))
        ++ u.procedures.flatMap fun r => ' ' :: r.render none := by
  rw [implementationPiece, Piece.text_spaced, implementations, List.flatMap_append,
    List.flatMap_map]
  simp only [Routine.text_piece, List.flatMap_assoc, List.flatMap_map]

/-- **The text of the piece is the source text.** -/
theorem text_piece (u : Blueprint) : u.piece.text = u.render := by
  show ("unit".toList ++ (' ' :: u.name.piece.text ++ (";".toList ++ [])))
    ++ ((usesPiece u.uses).text
      ++ (' ' :: "interface".toList
        ++ (((typesPiece u.classes).text
          ++ ((Piece.concat (u.procedures.map fun r => r.declaredPiece.spaced)).text ++ []))
          ++ (' ' :: "implementation".toList
            ++ (u.implementationPiece.text ++ (' ' :: "end".toList ++ (".".toList ++ [])))))))
            = u.render
  have hdeclared : (Piece.concat (u.procedures.map fun r => r.declaredPiece.spaced)).text
      = u.procedures.flatMap fun r => ' ' :: r.renderHeading none := by
    rw [Piece.text_spaced]
    exact List.flatMap_congr fun r _ => congrArg (' ' :: ·) (r.text_headingPiece none)
  rw [u.name.text_piece, text_usesPiece, text_typesPiece, hdeclared, text_implementationPiece]
  show _ = "unit ".toList ++ u.name.text ++ [';'] ++ renderUses u.uses ++ " interface".toList
    ++ renderTypes u.classes
    ++ (u.procedures.flatMap fun r => ' ' :: r.renderHeading none) ++ " implementation".toList
    ++ (u.classes.flatMap fun c => c.methods.flatMap fun m => ' ' :: m.render (some c.name))
    ++ (u.procedures.flatMap fun r => ' ' :: r.render none) ++ " end.".toList
  simp only [List.append_assoc, List.append_nil]
  rfl

/-- The header is read as its tokens. -/
theorem lexes_headerPiece (name : DottedName) : (headerPiece name).Lexes EndsSign := by
  have hname := name.lexes_piece.spaced.append
    (lexes_symbol (s := .semi) (by decide)).last fun _ _ => rfl
  exact .node _ ((lexes_keyword .kwUnit).append hname fun _ _ => rfl)

/-- The used units are read as their tokens. -/
theorem lexes_usesPiece (used : List DottedName) : (usesPiece used).Lexes EndsSign := by
  cases used with
  | nil => exact lexes_blank (by simp)
  | cons first others =>
    have hothers : ∀ p ∈ others.map fun d : DottedName => Piece.concat
        [.symbol .comma, d.piece.spaced],
        p.Lexes EndsWord ∧ ∀ rest, EndsWord (p.text ++ rest) := by
      intro p hp
      obtain ⟨d, -, rfl⟩ := List.mem_map.1 hp
      exact ⟨(lexes_symbol (by decide)).append d.lexes_piece.spaced.last fun _ _ => rfl,
        fun rest => rfl⟩
    have hlist := (Piece.lexes_concat hothers).append
      (lexes_symbol (s := .semi) (by decide)).last fun _ _ => rfl
    have hfirst := first.lexes_piece.spaced.append hlist fun rest _ => by
      rw [Piece.text_append, List.append_assoc]
      exact Piece.ends_concat (fun p hp => (hothers p hp).2) rfl
    exact .spaced (.node _ ((lexes_keyword .kwUses).append hfirst fun _ _ => rfl))

/-- The types are read as their tokens. -/
theorem lexes_typesPiece (classes : List Class) : (typesPiece classes).Lexes Apart := by
  cases classes with
  | nil => exact lexes_blank (by simp)
  | cons c cs =>
    have hclasses := Piece.lexes_spaced fun d (_ : d ∈ c :: cs) =>
      d.lexes_piece.mono fun rest (hrest : Apart rest) => hrest.2
    exact .spaced ((lexes_keyword .kwType).append hclasses.last fun _ _ => rfl)

/-- The types stand apart from what is before them. -/
theorem apart_typesPiece (classes : List Class) {rest : Text} (hrest : Apart rest) :
    Apart ((typesPiece classes).text ++ rest) := by
  cases classes with
  | nil => exact hrest
  | cons c cs => exact Piece.apart_space _

/-- The interface is read as its tokens. -/
theorem lexes_interfacePiece (u : Blueprint) : u.interfacePiece.Lexes Apart := by
  have hdeclared := Piece.lexes_spaced fun r (_ : r ∈ u.procedures) =>
    r.lexes_declaredPiece.mono fun rest (hrest : Apart rest) => hrest.2
  refine (lexes_typesPiece u.classes).append hdeclared.last fun rest hrest => ?_
  rw [Piece.concat, Piece.text_append, List.append_assoc]
  exact Piece.apart_spaced _ _ hrest

/-- The interface stands apart from what is before it. -/
theorem apart_interfacePiece (u : Blueprint) {rest : Text} (hrest : Apart rest) :
    Apart (u.interfacePiece.text ++ rest) := by
  rw [interfacePiece, Piece.concat, Piece.text_append, List.append_assoc, Piece.concat,
    Piece.text_append, List.append_assoc]
  exact apart_typesPiece _ (Piece.apart_spaced _ _ hrest)

/-- The implementations are read as their tokens. -/
theorem lexes_implementationPiece (u : Blueprint) : u.implementationPiece.Lexes Apart :=
  Piece.lexes_spaced fun x _ => (x.2.lexes_piece x.1).mono fun _ hrest => hrest.2

/-- **The source text is read as the tokens of the piece.** -/
theorem lexes_piece (u : Blueprint) : u.piece.Lexes EndsSign := by
  have hend := (lexes_keyword .kwEnd).spaced.append
    (lexes_symbol (s := .dot) (by decide)).last fun _ _ => rfl
  have hbodies := (lexes_implementationPiece u).append hend fun _ _ => Piece.apart_space _
  have hpart := (lexes_keyword .kwImplementation).spaced.append hbodies fun rest _ => by
    rw [Piece.text_append, List.append_assoc]
    exact (Piece.apart_spaced _ _ (Piece.apart_space _)).1
  have hdeclared := (lexes_interfacePiece u).append hpart fun _ _ => Piece.apart_space _
  have hinterface := (lexes_keyword .kwInterface).spaced.append hdeclared fun rest _ => by
    rw [Piece.text_append, List.append_assoc]
    exact (apart_interfacePiece u (Piece.apart_space _)).1
  have huses := (lexes_usesPiece u.uses).append hinterface fun _ _ => rfl
  refine (lexes_headerPiece u.name).append huses fun rest _ => ?_
  rw [Piece.concat, Piece.text_append, List.append_assoc]
  cases u.uses <;> rfl

end Blueprint

end PascalAtlas
