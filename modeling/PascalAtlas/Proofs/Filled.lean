import PascalAtlas.Proofs.Forest

/-!
# Nodes that are never empty

Only expressions, types and `error` nodes can be left without children. For all other kinds, each
place of the grammar that finishes a node of that kind has consumed a token since the node was
begun. Mostly that is because of a token that the rule **expects**. In four places it takes what the
tests on the way there have found out: a class, a section of declarations, a part of the unit and a
simple statement begin with a `bump` or a scan, and these consume only where a token is left.
-/

namespace PascalAtlas

/-- The kinds of nodes that can be without children. -/
def NodeKind.mayBeEmpty : NodeKind → Bool
  | .expr | .typeRef | .error => true
  | _ => false

/-- A node has children, unless it is of a kind that can do without. -/
def Filled (kind : NodeKind) (children : List Tree) : Prop :=
  kind.mayBeEmpty = true ∨ children ≠ []

/-! ## Steps as such -/

namespace Step

section Forms

variable {grammar : Rule → Step} {fits : NodeKind → List Tree → Prop} {P Q : State → Prop}

/-- The more is known, the fewer nodes there are to check. -/
theorem Forms.mono {a : Step} (h : a.Forms grammar fits Q) (hPQ : ∀ s, P s → Q s) :
    a.Forms grammar fits P := by
  induction a generalizing P Q with
  | seq a c iha ihc =>
    refine ⟨iha h.1 hPQ, ihc h.2 ?_⟩
    rintro s' ⟨b, s, hs, hrun⟩
    exact ⟨b, s, hPQ s hs, hrun⟩
  | branch test yes no ihyes ihno =>
    exact ⟨ihyes h.1 fun s hs => ⟨hPQ s hs.1, hs.2⟩, ihno h.2 fun s hs => ⟨hPQ s hs.1, hs.2⟩⟩
  | loop test body => exact h
  | ifMoved body moved still ih => exact ⟨ih h.1 hPQ, h.2⟩
  | node kind body ih =>
    refine ⟨ih h.1 ?_, fun b s s' F hs => h.2 b s s' F (hPQ s hs)⟩
    rintro _ ⟨s₀, hs₀, rfl⟩
    exact ⟨s₀, hPQ s₀ hs₀, rfl⟩
  | guarded recovery body ih => exact ih h hPQ
  | _ => trivial

/-- Whether a step finishes no node. -/
def nodeFree : Step → Bool
  | .seq a c => a.nodeFree && c.nodeFree
  | .branch _ yes no => yes.nodeFree && no.nodeFree
  | .loop _ body => body.nodeFree
  | .ifMoved body moved still => body.nodeFree && moved.nodeFree && still.nodeFree
  | .node .. => false
  | .guarded .. => false
  | _ => true

/-- A step that finishes no node leaves none empty. -/
theorem forms_of_nodeFree {a : Step} (h : a.nodeFree = true) : a.Forms grammar fits P := by
  induction a generalizing P with
  | seq a c iha ihc =>
    rw [nodeFree, Bool.and_eq_true] at h
    exact ⟨iha h.1, ihc h.2⟩
  | branch test yes no ihyes ihno =>
    rw [nodeFree, Bool.and_eq_true] at h
    exact ⟨ihyes h.1, ihno h.2⟩
  | loop test body ih => exact ih h
  | ifMoved body moved still ihbody ihmoved ihstill =>
    rw [nodeFree, Bool.and_eq_true, Bool.and_eq_true] at h
    exact ⟨ihbody h.1.1, ihmoved h.1.2, ihstill h.2⟩
  | node kind body => cases h
  | guarded recovery body => cases h
  | _ => trivial

/-- A case of a choice may use that its test holds, and the last one that none does. -/
theorem forms_choose {cases : List (Test × Step)} {otherwise : Step}
    (hcases : ∀ c ∈ cases, c.2.Forms grammar fits fun s => P s ∧ c.1.holds s = true)
    (hother : otherwise.Forms grammar fits fun s => P s ∧ ∀ c ∈ cases, c.1.holds s = false) :
    (choose cases otherwise).Forms grammar fits P := by
  induction cases generalizing P with
  | nil => exact hother.mono fun s hs => ⟨hs, fun _ hc => absurd hc List.not_mem_nil⟩
  | cons c cs ih =>
    refine ⟨hcases c (List.mem_cons_self ..), ih ?_ ?_⟩
    · intro d hd
      exact (hcases d (List.mem_cons_of_mem _ hd)).mono fun s hs => ⟨hs.1.1, hs.2⟩
    · refine hother.mono fun s hs => ⟨hs.1.1, fun d hd => ?_⟩
      rcases List.mem_cons.1 hd with rfl | hd
      · exact hs.1.2
      · exact hs.2 d hd

end Forms

section Fills

variable {grammar : Rule → Step} {P : State → Prop} {a c : Step}

/-- A node of a kind that can be empty needs no look at what it is made of. -/
theorem Forms.node_empty {kind : NodeKind} (hkind : kind.mayBeEmpty = true)
    (h : a.Forms grammar Filled fun _ => True) : (Step.node kind a).Forms grammar Filled P :=
  ⟨h.mono fun _ _ => trivial, fun _ _ _ _ _ _ _ _ => .inl hkind⟩

/-- **A node whose body consumes is not empty.** -/
theorem Forms.node_consumes {kind : NodeKind} (h : a.Forms grammar Filled fun s =>
      ∃ s₀, P s₀ ∧ s = s₀.openNode kind)
    (hconsumes : Consumes grammar (fun s => ∃ s₀, P s₀ ∧ s = s₀.openNode kind) a) :
    (Step.node kind a).Forms grammar Filled P := by
  refine ⟨h, fun b s s' F hs hrun _ hforest => .inr (hforest.ne_nil_of_lt ?_)⟩
  exact hconsumes b (s.openNode kind) s' ⟨s, hs, rfl⟩ hrun

end Fills

end Step

/-! ## The grammar -/

namespace Grammar

open Step

variable {P : State → Prop}

/-! ### Declarations -/

/-- A header has a word it expects. -/
theorem forms_unitHeader : unitHeader.Forms rules Filled P :=
  .node_consumes (forms_of_nodeFree rfl) consumes_expectIdent.seq_left.seq_left.seq_after

/-- So has a list of used units. -/
theorem forms_usesClause : usesClause.Forms rules Filled P :=
  .node_consumes (forms_of_nodeFree rfl) (consumes_expect rfl).seq_after.seq_after.seq_after

/-- A type may be empty. -/
theorem forms_typeUpTo (isStop : TokenKind → Bool) : (typeUpTo isStop).Forms rules Filled P :=
  .node_empty rfl (forms_of_nodeFree rfl)

/-- Parameters begin with a bracket. -/
theorem forms_formalParams : formalParams.Forms rules Filled P :=
  .node_consumes (forms_of_nodeFree rfl) (consumes_bracketed _ _)

/-- A heading has a name. -/
theorem forms_routineHeading : routineHeading.Forms rules Filled P := by
  have hword : ∀ Q, Consumes rules Q (.branch routineWord .bump (.fail .routineKeyword)) :=
    fun Q => consumes_branch_bump rfl (consumes_fail _)
  refine .node_consumes ?_ (hword _).seq_left.seq_after
  refine ⟨forms_of_nodeFree rfl, forms_of_nodeFree rfl, forms_of_nodeFree rfl,
    forms_of_nodeFree rfl, forms_of_nodeFree rfl, ⟨forms_formalParams, trivial⟩,
    ⟨⟨trivial, forms_typeUpTo _⟩, trivial⟩, forms_of_nodeFree rfl⟩

/-- So has a field. -/
theorem forms_fieldDecl : fieldDecl.Forms rules Filled P := by
  refine .node_consumes ?_ consumes_expectIdent.seq_left
  refine ⟨forms_of_nodeFree rfl, forms_of_nodeFree rfl, forms_of_nodeFree rfl, forms_typeUpTo _,
    forms_of_nodeFree rfl⟩

/-- So has a property. -/
theorem forms_propertyDecl : propertyDecl.Forms rules Filled P := by
  refine .node_consumes ?_ consumes_expectIdent.seq_left.seq_after
  refine ⟨forms_of_nodeFree rfl, forms_of_nodeFree rfl, forms_of_nodeFree rfl,
    ⟨⟨trivial, forms_typeUpTo _⟩, trivial⟩, forms_of_nodeFree rfl⟩

/-- An `error` node may be empty. -/
theorem forms_errorToken (cause : ParseCause) : (errorToken cause).Forms rules Filled P :=
  ⟨trivial, .node_empty rfl trivial⟩

/-- Members of a class finish no empty node, whichever of them it is. -/
theorem forms_member : member.Forms rules Filled P := by
  refine forms_choose ?_ trivial
  simp only [List.forall_mem_cons]
  refine ⟨forms_of_nodeFree rfl, forms_of_nodeFree rfl, forms_propertyDecl, ?_,
    forms_routineHeading, forms_of_nodeFree rfl, forms_of_nodeFree rfl, forms_of_nodeFree rfl,
    forms_fieldDecl, by simp⟩
  exact ⟨forms_routineHeading, trivial, trivial⟩

/-- Nor do all the members of a class together. -/
theorem forms_members : members.Forms rules Filled P :=
  ⟨⟨forms_member, trivial, forms_errorToken _⟩, forms_of_nodeFree rfl⟩

/-- What follows `class` finishes no empty node if its members do not. -/
theorem forms_classRest {body : Step} (h : body.Forms rules Filled fun _ => True) :
    (classRest body).Forms rules Filled P := by
  refine ⟨trivial, trivial, ⟨?_, trivial⟩, h.mono fun _ _ => trivial⟩
  exact .node_consumes (forms_of_nodeFree rfl) (consumes_bracketed _ _)

/-- A class begins with a `bump`, before which the tests have found `class` or `record`. -/
theorem forms_classType (hP : ∀ s, P s → s.kind ≠ .eof) : classType.Forms rules Filled P := by
  refine .node_consumes ⟨forms_classRest forms_members, forms_classRest ⟨trivial, forms_members⟩⟩ ?_
  have hbump : ∀ Q : State → Prop, (∀ s, Q s → ∃ s₀, P s₀ ∧ s = s₀.openNode .classType) →
      Consumes rules Q .bump := by
    intro Q hQ
    refine consumes_bump fun s hs => ?_
    obtain ⟨s₀, hs₀, rfl⟩ := hQ s hs
    exact hP s₀ hs₀
  exact Consumes.branch (hbump _ fun s hs => hs.1).seq_left (hbump _ fun s hs => hs.1).seq_left

/-- A type declaration has a name. -/
theorem forms_typeDecl : typeDecl.Forms rules Filled P := by
  refine .node_consumes ?_ consumes_expectIdent.seq_left
  refine ⟨forms_of_nodeFree rfl, forms_of_nodeFree rfl, forms_of_nodeFree rfl,
    forms_of_nodeFree rfl, forms_choose ?_ trivial, forms_of_nodeFree rfl⟩
  simp only [List.forall_mem_cons]
  refine ⟨⟨trivial, trivial, forms_classType ?_⟩, forms_classType ?_, ⟨trivial, forms_classType ?_⟩,
    forms_of_nodeFree rfl, by simp⟩
  · exact fun s hs => Test.kind_ne_eof rfl hs.1.1.2
  · exact fun s hs => Test.kind_ne_eof rfl hs.2
  · -- Behind the word `packed` stands what the look ahead has found.
    rintro s' ⟨b, s, ⟨-, htest⟩, hrun⟩
    cases hrun
    have hkind : s.kind ≠ .eof := Test.kind_ne_eof rfl htest
    rw [Test.holds, Bool.and_eq_true, Test.holds_any] at htest
    rw [State.kind, State.rest_bump hkind]
    intro hend
    have hafter : s.kindAfter = .eof := hend
    simp [Test.holds, hafter, TokenKind.sameShape] at htest

theorem forms_typeSection : typeSection.Forms rules Filled P :=
  ⟨trivial, forms_typeDecl⟩

/-- A section of declarations begins with a `bump`, before which the tests have found its word. -/
theorem forms_localDecls (hP : ∀ s, P s → s.kind ≠ .eof) : localDecls.Forms rules Filled P := by
  refine .node_consumes (forms_of_nodeFree rfl) (consumes_bump ?_).seq_left
  rintro _ ⟨s, hs, rfl⟩
  exact hP s hs

/-! ### Statements -/

/-- An expression may be empty. -/
theorem forms_expression (stops : List TokenKind) : (expression stops).Forms rules Filled P :=
  .node_empty rfl trivial

theorem forms_statements (stops : List TokenKind) : (statements stops).Forms rules Filled P :=
  ⟨trivial, forms_of_nodeFree rfl, trivial, trivial, forms_errorToken _⟩

/-- A block ends with the word it expects. -/
theorem forms_compound : compound.Forms rules Filled P :=
  .node_consumes ⟨forms_of_nodeFree rfl, forms_statements _, forms_of_nodeFree rfl⟩
    (consumes_expect rfl).seq_left

/-- A loop has the word before its statement. -/
theorem forms_headed (kind : NodeKind) : (headed kind).Forms rules Filled P :=
  .node_consumes ⟨trivial, forms_expression _, forms_of_nodeFree rfl, trivial⟩
    (consumes_expect rfl).seq_left.seq_after.seq_after

/-- A conditional has its `then`. -/
theorem forms_conditional : conditional.Forms rules Filled P :=
  .node_consumes ⟨trivial, forms_expression _, forms_of_nodeFree rfl, trivial,
      forms_of_nodeFree rfl⟩
    (consumes_expect rfl).seq_left.seq_after.seq_after

/-- A `repeat` loop has its `until`. -/
theorem forms_repetition : repetition.Forms rules Filled P :=
  .node_consumes ⟨trivial, forms_statements _, forms_of_nodeFree rfl, forms_expression _⟩
    (consumes_expect rfl).seq_left.seq_after.seq_after

/-- An arm has its colon. -/
theorem forms_caseArm : caseArm.Forms rules Filled P :=
  .node_consumes ⟨forms_expression _, forms_of_nodeFree rfl, trivial⟩
    (consumes_expect rfl).seq_left.seq_after

/-- A `case` has its `of`. -/
theorem forms_caseStatement : caseStatement.Forms rules Filled P := by
  refine .node_consumes ?_ (consumes_expect rfl).seq_left.seq_after.seq_after
  refine ⟨trivial, forms_expression _, forms_of_nodeFree rfl, ⟨?_, trivial, trivial⟩,
    forms_of_nodeFree rfl⟩
  exact ⟨⟨trivial, forms_statements _⟩, trivial, forms_caseArm⟩

/-- A protected block has its `end`. -/
theorem forms_tryStatement : tryStatement.Forms rules Filled P := by
  refine .node_consumes ?_ (consumes_expect rfl).seq_after.seq_after.seq_after
  refine ⟨trivial, forms_statements _, ⟨?_, ⟨trivial, forms_statements _⟩, trivial⟩,
    forms_of_nodeFree rfl⟩
  refine ⟨trivial, ?_, forms_of_nodeFree rfl, forms_statements _⟩
  exact ⟨trivial, forms_expression _, forms_of_nodeFree rfl, trivial, forms_of_nodeFree rfl⟩

theorem forms_assembler : assembler.Forms rules Filled P :=
  .node_consumes (forms_of_nodeFree rfl) (consumes_expect rfl).seq_after.seq_after

/-- A statement is empty before a kind that ends it, and at the end of the tokens. -/
theorem holds_statementEnd (s : State) :
    statementEnd.holds s = (Scan.isTerminator s.kind || s.kind.sameShape .eof) := by
  rw [statementEnd, Test.holds_any]
  simp only [List.any_cons, List.any_nil, Test.symbol, Test.keyword, Test.eof, Test.holds]
  generalize s.kind = k
  cases k with
  | keyword word => cases word <;> rfl
  | symbol sign => cases sign <;> rfl
  | _ => rfl

/-- Where a statement is not empty, the scan of a simple statement passes its first token. -/
theorem consumes_simple :
    Consumes rules (fun s => statementEnd.holds s = false) (.take (.expression [])) := by
  intro b s s' hs hrun
  cases hrun
  rw [holds_statementEnd, Bool.or_eq_false_iff] at hs
  have heof : s.kind ≠ .eof := by
    intro hkind
    rw [hkind] at hs
    exact absurd hs.2 (by decide)
  cases hrest : s.rest with
  | nil => exact absurd hrest (State.ne_nil_of_kind heof)
  | cons t ts =>
    have hkind : s.kind = t.kind := by rw [State.kind, hrest, headKind]
    rw [hkind] at hs heof
    have hpos : 0 < (Scan.run (.expression []) {} (t :: ts)).1 :=
      run_scan_pos heof (by simp [Scan.expression, hs.1])
    rw [← hrest] at hpos ⊢
    exact State.rest_advance_lt hpos (by simp [hrest])

/-- No statement is empty: a simple one begins where a token is left. -/
theorem forms_statement : statement.Forms rules Filled P := by
  refine forms_choose ?_ ?_
  · simp only [List.forall_mem_cons]
    refine ⟨forms_compound, forms_conditional, forms_headed _, forms_headed _, forms_headed _,
      forms_caseStatement, forms_repetition, forms_tryStatement, forms_assembler, trivial, by simp⟩
  · refine .node_consumes trivial (consumes_simple.mono ?_)
    rintro _ ⟨s, ⟨-, hs⟩, rfl⟩
    exact hs (statementEnd, .skip) (by simp)

/-! ### Routines and units -/

/-- A routine has its heading. -/
theorem forms_routine : routine.Forms rules Filled P := by
  refine .node_consumes ⟨forms_routineHeading, ⟨?_, trivial⟩⟩ (consumes_routineHeading _).seq_left
  refine ⟨⟨forms_localDecls ?_, trivial⟩, ⟨forms_compound, forms_assembler, trivial⟩,
    forms_of_nodeFree rfl⟩
  exact fun s hs => Test.kind_ne_eof rfl hs.2

theorem forms_rules (rule : Rule) : (rules rule).Forms rules Filled P := by
  cases rule with
  | statement => exact forms_statement
  | routine => exact forms_routine

/-- A part of the unit begins with a `bump`, before which the tests have found its word. -/
theorem forms_unitSection (hP : ∀ s, P s → s.kind ≠ .eof) : unitSection.Forms rules Filled P := by
  refine .node_consumes ⟨forms_compound, trivial, forms_statements _⟩ (Consumes.branch ?_ ?_)
  · exact Consumes.node (consumes_expect rfl).seq_left
  · refine (consumes_bump ?_).seq_left
    rintro _ ⟨⟨s, hs, rfl⟩, -⟩
    exact hP s hs

/-- **The whole grammar leaves no such node empty.** -/
theorem forms_unit : unit.Forms rules Filled P := by
  refine ⟨forms_choose ?_ (forms_errorToken _), trivial, forms_errorToken _⟩
  simp only [List.forall_mem_cons]
  refine ⟨forms_unitHeader, forms_of_nodeFree rfl, forms_of_nodeFree rfl, forms_usesClause,
    forms_typeSection, forms_localDecls ?_, trivial, forms_unitSection ?_, forms_of_nodeFree rfl,
    trivial, by simp⟩
  · exact fun s hs => Test.kind_ne_eof rfl hs.2
  · exact fun s hs => Test.kind_ne_eof rfl hs.2

end Grammar

end PascalAtlas
