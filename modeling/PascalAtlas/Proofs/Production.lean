import PascalAtlas.Proofs.Adds
import PascalAtlas.Proofs.Span
import PascalAtlas.Proofs.Yield

/-!
# Finished nodes are complete

What the children of a node of each kind look like, as a **production**: a language over trees,
written with products, sums and stars. A node is finished only when the step that makes it has
succeeded, so its children are what that step adds, and the production of its kind is read off the
step. A step that fails leaves no node of its kind behind: the frames it had opened are dissolved
into an `error` node, whose own children may be anything, but the nodes finished before the failure
stay what they are. Hence every node of every tree has the children its production asks for, also
below `error` nodes (`nodes_complete`).

The parameters of a routine are the one production that counts. They are a stretch between
two brackets inside which the brackets are level, so that the first bracket is closed by
the last and by no other.
-/

namespace PascalAtlas

open Computability

/-! ## Brackets -/

/-- The number of opening brackets `(`. -/
def openings (ts : List Token) : Nat :=
  ts.countP fun t => t.kind == .symbol .lParen

/-- The number of closing brackets `)`. -/
def closings (ts : List Token) : Nat :=
  ts.countP fun t => t.kind == .symbol .rParen

/-- Tokens whose brackets `(` and `)` are **level**: nowhere more of them have been closed than
opened, and at the end as many. -/
def Level (ts : List Token) : Prop :=
  (∀ front, front <+: ts → closings front ≤ openings front) ∧ closings ts = openings ts

/-- The scan of the parameters of a routine. -/
abbrev Scan.parameters : Scan :=
  .balanced (.symbol .lParen) (.symbol .rParen)

/-- Opening brackets are counted token by token. -/
theorem openings_cons (t : Token) (ts : List Token) :
    openings (t :: ts) = openings [t] + openings ts := by
  rw [openings, openings, ← List.singleton_append, List.countP_append]
  rfl

theorem closings_cons (t : Token) (ts : List Token) :
    closings (t :: ts) = closings [t] + closings ts := by
  rw [closings, closings, ← List.singleton_append, List.countP_append]
  rfl

/-- What the scan has passed when it stops with `n` brackets open: the tokens up to the bracket that
closes **the last of them**. No prefix of what stands before that bracket closes all. -/
def ClosesAt (n : Nat) (passed : List Token) : Prop :=
  ∃ inside c, passed = inside ++ [c] ∧ c.kind = .symbol .rParen
    ∧ (∀ front, front <+: inside → closings front < n + openings front)
    ∧ closings inside + 1 = n + openings inside

/-- One token more in front, which opens or closes a bracket or does neither. -/
theorem ClosesAt.cons {m n : Nat} {t : Token} {passed : List Token} (h : ClosesAt m passed)
    (hn : 0 < n) (ht : m + closings [t] = n + openings [t]) : ClosesAt n (t :: passed) := by
  obtain ⟨inside, c, rfl, hc, hfront, hinside⟩ := h
  refine ⟨t :: inside, c, rfl, hc, ?_, ?_⟩
  · intro front hprefix
    rcases List.prefix_cons_iff.1 hprefix with rfl | ⟨front', rfl, hprefix'⟩
    · exact Nat.lt_add_right _ hn
    · have hlt := hfront front' hprefix'
      rw [openings_cons, closings_cons]
      omega
  · rw [openings_cons, closings_cons]
    omega

/-- The induction is on the tokens: each changes the number of brackets that are open. -/
theorem Scan.closesAt_parameters {n : Nesting} {ts : List Token} (hn : 0 < n.brackets)
    (h : (parameters.run n ts).2 = true) :
    ClosesAt n.brackets (ts.take (parameters.run n ts).1) := by
  induction ts generalizing n with
  | nil => cases h
  | cons t ts ih =>
    by_cases heof : t.kind = .eof
    · rw [run, if_pos heof] at h
      cases h
    -- Where the scan goes on with `m` brackets open, the token is one more in front.
    have hgo {m : Nesting} (hmove : parameters n t.kind (headKind ts) = .go m) (hm : 0 < m.brackets)
        (ht : m.brackets + closings [t] = n.brackets + openings [t]) :
        ClosesAt n.brackets ((t :: ts).take (parameters.run n (t :: ts)).1) := by
      rw [run_go heof hmove] at h ⊢
      exact (ih hm h).cons hn ht
    by_cases hopen : t.kind = .symbol .lParen
    · refine hgo (m := { n with brackets := n.brackets + 1 }) ?_ (Nat.succ_pos _) ?_
      · rw [hopen]
        rfl
      · simp [openings, closings, hopen]
    by_cases hclose : t.kind = .symbol .rParen
    · by_cases hlast : n.brackets ≤ 1
      · have hmove : parameters n t.kind (headKind ts) = .last := by
          rw [hclose]
          exact if_pos hlast
        rw [run, if_neg heof, hmove]
        refine ⟨[], t, rfl, hclose, ?_, ?_⟩
        · intro front hprefix
          rw [List.prefix_nil.1 hprefix]
          exact Nat.lt_add_right _ hn
        · show 0 + 1 = n.brackets + 0
          omega
      · refine hgo (m := { n with brackets := n.brackets - 1 }) ?_
          (by show 0 < n.brackets - 1; omega) ?_
        · rw [hclose]
          exact if_neg hlast
        · simp only [openings, closings, List.countP_singleton, hclose]
          show n.brackets - 1 + 1 = n.brackets + 0
          omega
    · have hshape (s : Symbol) (hs : t.kind ≠ .symbol s) :
          t.kind.sameShape (.symbol s) = false := by
        refine Bool.eq_false_iff.2 fun hsame => hs (TokenKind.eq_of_sameShape hsame rfl)
      refine hgo (m := n) ?_ hn ?_
      · simp only [parameters, balanced, hshape _ hopen, hshape _ hclose]
        rfl
      · simp [openings, closings, hopen, hclose]

/-! ## Productions -/

namespace Production

/-- A statement, which may be empty: at most one node. -/
def statement : Language Tree :=
  optional (partOf fun kind => kind.isStatement = true)

/-- What stands in a list of statements: statements, what could not be read as one, and
the `;` between them. -/
def statements : Language Tree :=
  (partOf (fun kind => kind.isStatement = true) + part .error + sign .semi)∗

/-- A handler: a name, which is `on`, and the exception, `do` and a statement. -/
def handler : Language Tree :=
  leaf (fun k => k.isWord "on".toList = true) * part .expr * word .kwDo * statement
    * optional (sign .semi)

/-- What stands between the protected statements and the `end` behind them. -/
def rescue : Language Tree :=
  word .kwExcept * handler∗ * optional (word .kwElse) * statements + word .kwFinally * statements

/-- What stands between `of` and `end` of a `case`. -/
def arms : Language Tree :=
  (part .caseArm + sign .semi + word .kwElse * statements)∗

/-- Tokens between two brackets that close each other. -/
def bracketed : Language Tree :=
  {F | ∃ o inside c, o.kind = .symbol .lParen ∧ c.kind = .symbol .rParen ∧ Level inside
    ∧ F = (o :: (inside ++ [c])).map Tree.leaf}

/-- What the **children** of a node of each kind are. Of the kinds that are not named
here nothing is said. -/
def children : NodeKind → Language Tree
  | .compound => word .kwBegin * statements * word .kwEnd
  | .ifStmt =>
    word .kwIf * part .expr * word .kwThen * statement * optional (word .kwElse * statement)
  | .whileStmt => word .kwWhile * part .expr * word .kwDo * statement
  | .forStmt => word .kwFor * part .expr * word .kwDo * statement
  | .withStmt => word .kwWith * part .expr * word .kwDo * statement
  | .repeatStmt => word .kwRepeat * statements * word .kwUntil * part .expr
  | .caseStmt => word .kwCase * part .expr * word .kwOf * arms * word .kwEnd
  | .caseArm => part .expr * sign .colon * statement
  | .tryStmt => word .kwTry * statements * rescue * word .kwEnd
  | .fieldDecl => name * (sign .comma * name)∗ * sign .colon * part .typeRef * optional (sign .semi)
  | .routineHeading =>
    optional (word .kwClass) * leaf (fun k => k.isRoutine = true) * name * leaves * optional
      (part .formalParams)
      * optional (sign .colon * part .typeRef) * leaves
  | .formalParams => bracketed
  | .typeDecl => name * ⊤ * sign .semi
  | .usesClause => word .kwUses * name * leaves * sign .semi
  | .expr | .typeRef => leaves
  | _ => ⊤

end Production

/-- Whether a node of some kind with some children is **complete**. -/
def Complete (kind : NodeKind) (F : List Tree) : Prop :=
  F ∈ Production.children kind

/-! ## Nodes -/

open Production (leaf word sign name leaves part partOf optional)

namespace Step

variable {P : State → Prop} {a : Step} {kind : NodeKind}

/-- **A node is complete** if its production is what its step adds. -/
theorem Forms.node_adds
    (h : a.Forms Grammar.rules Complete fun s => ∃ s₀, P s₀ ∧ s = s₀.openNode kind)
    (hadds : Adds Grammar.rules (fun s => ∃ s₀, P s₀ ∧ s = s₀.openNode kind) a
      (Production.children kind)) :
    (Step.node kind a).Forms Grammar.rules Complete P :=
  hadds.forms_node (fun _ hF => hF) h

/-- A node of a kind of which nothing is said. -/
theorem Forms.node_any (hkind : Production.children kind = ⊤)
    (h : a.Forms Grammar.rules Complete fun s => ∃ s₀, P s₀ ∧ s = s₀.openNode kind) :
    (Step.node kind a).Forms Grammar.rules Complete P := by
  refine .node_adds h ?_
  rw [hkind]
  exact adds_top

/-- The first word of a node, where it is known before the node is begun. -/
theorem adds_first {k : Keyword} (hP : ∀ s, P s → s.kind = .keyword k) :
    Adds Grammar.rules (fun s => ∃ s₀, P s₀ ∧ s = s₀.openNode kind) .bump (word k) := by
  refine adds_bump ?_
  rintro _ ⟨s, hs, rfl⟩
  have hkind : s.kind = .keyword k := hP s hs
  exact ⟨hkind, fun heof => TokenKind.noConfusion (hkind.symm.trans heof)⟩

end Step

namespace Grammar

open Step

variable {P : State → Prop}

/-! ## Words, signs and names -/

/-- Where the test for a word holds, the next token is that word. -/
theorem kind_of_keyword {k : Keyword} {s : State} (h : (Test.keyword k).holds s = true) :
    s.kind = .keyword k :=
  TokenKind.eq_of_sameShape h rfl

/-- Where the test for a sign holds, it is that sign. -/
theorem kind_of_symbol {sign : Symbol} {s : State} (h : (Test.symbol sign).holds s = true) :
    s.kind = .symbol sign :=
  TokenKind.eq_of_sameShape h rfl

/-- A word that was tested for is added. -/
theorem adds_word (k : Keyword) :
    Adds rules (fun s => P s ∧ (Test.keyword k).holds s = true) .bump (word k) := by
  refine adds_bump fun s hs => ⟨kind_of_keyword hs.2, ?_⟩
  rw [kind_of_keyword hs.2]
  exact TokenKind.noConfusion

/-- So is a sign. -/
theorem adds_sign (k : Symbol) :
    Adds rules (fun s => P s ∧ (Test.symbol k).holds s = true) .bump (sign k) := by
  refine adds_bump fun s hs => ⟨kind_of_symbol hs.2, ?_⟩
  rw [kind_of_symbol hs.2]
  exact TokenKind.noConfusion

/-- An expected word is added. -/
theorem adds_expectWord (k : Keyword) : Adds rules P (expect (.keyword k)) (word k) :=
  .branch (adds_word k) (adds_fail _)

/-- So is an expected sign. -/
theorem adds_expectSign (k : Symbol) : Adds rules P (expect (.symbol k)) (sign k) :=
  .branch (adds_sign k) (adds_fail _)

/-- So is an expected name. -/
theorem adds_expectIdent : Adds rules P expectIdent name := by
  refine .branch (adds_bump fun s hs => ?_) (adds_fail _)
  have hident : s.kind.sameShape (.ident []) = true := hs.2
  generalize s.kind = k at hident
  cases k with
  | ident name => exact ⟨rfl, TokenKind.noConfusion⟩
  | _ => cases hident

theorem adds_optionalSemi : Adds rules P optionalSemi (optional (sign .semi)) :=
  .when (adds_sign .semi)

/-! ## Declarations -/

/-- A type is a stretch of tokens. -/
theorem complete_typeUpTo (isStop : TokenKind → Bool) : (typeUpTo isStop).Forms rules Complete P :=
  .node_adds trivial (adds_take _)

/-- A used unit begins with a name. -/
theorem adds_usedUnit : Adds rules P usedUnit (name * leaves) := by
  have hname : Adds rules P dottedName (name * leaves) := adds_expectIdent.before (adds_plain rfl)
  have h :=
    hname.before (adds_plain (a := when (.keyword .kwIn) (all [.bump, expect (.str [])])) rfl)
  rwa [mul_assoc, Production.leaves_mul_leaves] at h

/-- A finished list of units has its word, its names and its `;`. -/
theorem complete_usesClause (hP : ∀ s, P s → s.kind = .keyword .kwUses) :
    usesClause.Forms rules Complete P := by
  refine .node_adds (forms_of_nodeFree rfl) ?_
  have hrest : Adds rules (fun _ => True)
      (all [.loop (.symbol .comma) (all [.bump, usedUnit]), expect (.symbol .semi)])
      (leaves * sign .semi) :=
    (adds_plain rfl).before (adds_expectSign .semi)
  refine ((adds_first hP).before (adds_usedUnit.before hrest)).le (le_of_eq ?_)
  simp only [Production.children, mul_assoc, Production.leaves_mul_leaves_mul]

/-- Behind the first bracket one is open, and the scan stops where it is closed. -/
theorem complete_formalParams (hP : ∀ s, P s → s.kind = .symbol .lParen) :
    formalParams.Forms rules Complete P := by
  refine .node_adds (forms_of_nodeFree rfl) ?_
  rintro b _ s' ⟨s, hs, rfl⟩ _ hrun
  have hkind : s.kind = .symbol .lParen := hP s hs
  obtain ⟨o, ts, hts⟩ := List.exists_cons_of_ne_nil
    (State.ne_nil_of_kind (s := s) (by rw [hkind]; simp))
  have ho : o.kind = .symbol .lParen := by rwa [State.kind, hts, headKind] at hkind
  have hgo : Scan.parameters.run {} (o :: ts)
      = ((Scan.parameters.run ⟨1, 0, false⟩ ts).1 + 1,
        (Scan.parameters.run ⟨1, 0, false⟩ ts).2) := by
    refine Scan.run_go (by rw [ho]; simp) ?_
    rw [ho]
    rfl
  cases hrun with
  | takeClosed_ok stopped =>
    rw [State.rest_openNode, hts, hgo] at stopped
    obtain ⟨inside, c, hpassed, hc, hfront, hinside⟩ := Scan.closesAt_parameters Nat.one_pos stopped
    refine ⟨_, ⟨o, inside, c, ho, hc, ⟨?_, ?_⟩, ?_⟩, State.frames_advance _ _⟩
    · intro front hprefix
      have hlt : closings front < 1 + openings front := hfront front hprefix
      omega
    · have hone : closings inside + 1 = 1 + openings inside := hinside
      omega
    · rw [State.rest_openNode, hts, hgo, List.take_succ_cons, hpassed]

/-- A routine begins with one of the words for it. -/
theorem adds_routineWord :
    Adds rules P (.branch routineWord .bump (.fail .routineKeyword))
      (leaf fun k => k.isRoutine = true) := by
  refine .branch (adds_bump fun s hs => ?_) (adds_fail _)
  have hroutine := hs.2
  rw [routineWord, Test.holds_any] at hroutine
  obtain ⟨test, htest, holds⟩ := List.any_eq_true.1 hroutine
  obtain ⟨k, hk, rfl⟩ := List.mem_map.1 htest
  rw [kind_of_keyword holds]
  exact ⟨(List.mem_filter.1 hk).2, TokenKind.noConfusion⟩

/-- A finished heading has its word and its name. -/
theorem complete_routineHeading : routineHeading.Forms rules Complete P := by
  refine .node_adds ?_ ?_
  · refine ⟨forms_of_nodeFree rfl, forms_of_nodeFree rfl, forms_of_nodeFree rfl,
      forms_of_nodeFree rfl, forms_of_nodeFree rfl,
      ⟨complete_formalParams fun s hs => kind_of_symbol hs.2, trivial⟩,
      ⟨⟨trivial, complete_typeUpTo _⟩, trivial⟩, forms_of_nodeFree rfl⟩
  · have hresult : Adds rules (fun _ => True)
        (when (.symbol .colon) (all [.bump, typeUpTo endsType]))
        (optional (sign .colon * part .typeRef)) := .when ((adds_sign .colon).before (adds_node _))
    have hparams : Adds rules (fun _ => True) (when (.symbol .lParen) formalParams)
        (optional (part .formalParams)) :=
      .when (adds_node _)
    refine ((Adds.when (adds_word .kwClass)).before
      (adds_routineWord.before (adds_expectIdent.before
        ((adds_plain rfl).before ((adds_plain rfl).before
          (hparams.before (hresult.before (adds_plain rfl)))))))).le (le_of_eq ?_)
    simp only [Production.children, mul_assoc, Production.leaves_mul_leaves_mul]

/-- A finished field has its names, a colon and a type. -/
theorem complete_fieldDecl : fieldDecl.Forms rules Complete P := by
  refine .node_adds ⟨forms_of_nodeFree rfl, forms_of_nodeFree rfl, forms_of_nodeFree rfl,
    complete_typeUpTo _, forms_of_nodeFree rfl⟩ ?_
  have hmore : Adds rules (fun s => (Test.symbol .comma).holds s = true) (all [.bump, expectIdent])
      (sign .comma * name) := ((adds_sign .comma).mono (fun _ hs => ⟨hs, hs⟩) le_rfl).before
      adds_expectIdent
  refine (adds_expectIdent.before (hmore.loop.before ((adds_expectSign .colon).before
    ((adds_node _).before adds_optionalSemi)))).le (le_of_eq ?_)
  simp only [Production.children, mul_assoc]

/-- A finished property has its word and its name. -/
theorem complete_propertyDecl : propertyDecl.Forms rules Complete P :=
  .node_any rfl ⟨forms_of_nodeFree rfl, forms_of_nodeFree rfl, forms_of_nodeFree rfl,
    ⟨⟨trivial, complete_typeUpTo _⟩, trivial⟩, forms_of_nodeFree rfl⟩

/-- An `error` node may have any children. -/
theorem complete_errorToken (cause : ParseCause) : (errorToken cause).Forms rules Complete P :=
  ⟨trivial, .node_any rfl trivial⟩

/-- Members finish complete nodes, whichever of them it is. -/
theorem complete_member : member.Forms rules Complete P := by
  refine forms_choose ?_ trivial
  simp only [List.forall_mem_cons]
  refine ⟨forms_of_nodeFree rfl, forms_of_nodeFree rfl, complete_propertyDecl, ?_,
    complete_routineHeading, forms_of_nodeFree rfl, forms_of_nodeFree rfl, forms_of_nodeFree rfl,
    complete_fieldDecl, by simp⟩
  exact ⟨complete_routineHeading, trivial, trivial⟩

/-- So do all the members of a class together. -/
theorem complete_members : members.Forms rules Complete P :=
  ⟨⟨complete_member, trivial, complete_errorToken _⟩, forms_of_nodeFree rfl⟩

theorem complete_classRest {body : Step} (h : body.Forms rules Complete fun _ => True) :
    (classRest body).Forms rules Complete P :=
  ⟨trivial, trivial, ⟨.node_any rfl (forms_of_nodeFree rfl), trivial⟩, h.mono fun _ _ => trivial⟩

/-- A finished class ends with its `end`, or with its ancestors. -/
theorem complete_classType : classType.Forms rules Complete P :=
  .node_any rfl ⟨complete_classRest complete_members,
    complete_classRest ⟨trivial, complete_members⟩⟩

/-- A finished type declaration has its name, its `=` and its `;`. -/
theorem complete_typeDecl : typeDecl.Forms rules Complete P := by
  refine .node_adds ⟨forms_of_nodeFree rfl, forms_of_nodeFree rfl, forms_of_nodeFree rfl,
    forms_of_nodeFree rfl, forms_choose ?_ trivial, forms_of_nodeFree rfl⟩ ?_
  · simp only [List.forall_mem_cons]
    exact ⟨⟨trivial, trivial, complete_classType⟩, complete_classType,
      ⟨trivial, complete_classType⟩, forms_of_nodeFree rfl, by simp⟩
  · refine (adds_expectIdent.before
      ((adds_top.before (adds_expectSign .semi)).after.after.after.after)).le ?_
    rw [Production.children, mul_assoc]

/-! ## Statements -/

/-- An expression is a stretch of tokens. -/
theorem complete_expression (stops : List TokenKind) : (expression stops).Forms rules Complete P :=
  .node_adds trivial (adds_take _)

/-- Every kind of statement is a statement. -/
theorem part_le_statement {kind : NodeKind} (hkind : kind.isStatement = true) :
    part kind ≤ Production.statement := by
  refine le_trans ?_ le_add_self
  rintro F ⟨n, _, hn, rfl, rfl⟩
  exact ⟨n, _, hn, hkind, rfl⟩

/-- A statement is at most one node. -/
theorem adds_statement : Adds rules P statement Production.statement := by
  have hnode {Q : State → Prop} {kind : NodeKind} {body : Step} (hkind : kind.isStatement = true) :
      Adds rules Q (.node kind body) Production.statement :=
    (adds_node kind).le (part_le_statement hkind)
  refine adds_choose ?_ (hnode rfl)
  simp only [List.forall_mem_cons]
  exact ⟨hnode rfl, hnode rfl, hnode rfl, hnode rfl, hnode rfl, hnode rfl, hnode rfl, hnode rfl,
    hnode rfl, adds_skip.le le_self_add, by simp⟩

/-- A statement that fails leaves nothing **in the frame around it**. -/
theorem contained_statement : Contained rules P statement := by
  refine contained_choose ?_ (contained_node _)
  simp only [List.forall_mem_cons]
  exact ⟨contained_node _, contained_node _, contained_node _, contained_node _, contained_node _,
    contained_node _, contained_node _, contained_node _, contained_node _, contained_skip, by simp⟩

/-- A round of a list of statements adds a statement or an `error` node, and then a `;` or another
`error` node or nothing. -/
theorem adds_statements (stops : List TokenKind) :
    Adds rules P (statements stops) Production.statements := by
  -- Whatever a round adds is a word of the star, so the rounds together are one too.
  have hstatement : Production.statement + part .error ≤ Production.statements := by
    refine add_le (add_le one_le_kstar ?_) ?_
    · exact le_trans (le_trans le_self_add le_self_add) le_kstar
    · exact le_trans (le_trans le_add_self le_self_add) le_kstar
  have hsemi : sign .semi ≤ Production.statements := le_trans le_add_self le_kstar
  have herror : part .error ≤ Production.statements := le_trans le_add_self hstatement
  have hguarded {Q : State → Prop} :
      Adds rules Q (.guarded .toStatementEnd (.call .statement)) Production.statements :=
    ((adds_call adds_statement).guarded (contained_call contained_statement)).le hstatement
  have hnext {otherwise : Step} (h : Adds rules (fun _ => True) otherwise Production.statements) :
      Adds rules (fun _ => True)
        (choose [(.symbol .semi, .bump), (.or .eof (.any (stops.map .here)), .skip)] otherwise)
        Production.statements := by
    refine adds_choose ?_ h
    simp only [List.forall_mem_cons]
    exact ⟨(adds_sign .semi).le hsemi, adds_skip.le one_le_kstar, by simp⟩
  have herrorToken : Adds rules (fun _ => True) (errorToken .statementList) Production.statements :=
    ((adds_report _).before (adds_node _)).le (by rwa [one_mul])
  refine (Adds.loop (L := Production.statements) ?_).le (kstar_idem _).le
  refine Adds.le (L := Production.statements * Production.statements) ?_ (kstar_mul_kstar _).le
  exact hguarded.ifMoved (hnext ((adds_report _).le one_le_kstar)) (hnext herrorToken)

/-- Lists of statements finish complete nodes. -/
theorem complete_statements (stops : List TokenKind) : (statements stops).Forms rules Complete P :=
  ⟨trivial, forms_of_nodeFree rfl, trivial, trivial, complete_errorToken _⟩

/-- A finished block has its `begin` and its `end`. -/
theorem complete_compound : compound.Forms rules Complete P := by
  refine .node_adds ⟨forms_of_nodeFree rfl, complete_statements _, forms_of_nodeFree rfl⟩ ?_
  refine ((adds_expectWord .kwBegin).before
    ((adds_statements _).before (adds_expectWord .kwEnd))).le (le_of_eq ?_)
  simp only [Production.children, mul_assoc]

/-- The three kinds of statements in which a word, an expression and `do` stand
before one statement. -/
theorem complete_headed {kind : NodeKind} {k : Keyword}
    (hkind : Production.children kind = word k * part .expr * word .kwDo * Production.statement)
    (hP : ∀ s, P s → s.kind = .keyword k) : (headed kind).Forms rules Complete P := by
  refine .node_adds ⟨trivial, complete_expression _, forms_of_nodeFree rfl, trivial⟩ ?_
  refine ((adds_first hP).before ((adds_node _).before ((adds_expectWord .kwDo).before
    (adds_call adds_statement)))).le (le_of_eq ?_)
  simp only [hkind, mul_assoc]

/-- A finished conditional has its `if`, its `then`, and a statement behind each word. -/
theorem complete_conditional (hP : ∀ s, P s → s.kind = .keyword .kwIf) :
    conditional.Forms rules Complete P := by
  refine .node_adds ⟨trivial, complete_expression _, forms_of_nodeFree rfl, trivial,
    forms_of_nodeFree rfl⟩ ?_
  have helse : Adds rules (fun _ => True) (when (.keyword .kwElse) (all [.bump, .call .statement]))
      (optional (word .kwElse * Production.statement)) :=
    .when ((adds_word .kwElse).before (adds_call adds_statement))
  refine ((adds_first hP).before ((adds_node _).before ((adds_expectWord .kwThen).before
    ((adds_call adds_statement).before helse)))).le (le_of_eq ?_)
  simp only [Production.children, mul_assoc]

/-- A finished `repeat` loop has its `until`. -/
theorem complete_repetition (hP : ∀ s, P s → s.kind = .keyword .kwRepeat) :
    repetition.Forms rules Complete P := by
  refine .node_adds ⟨trivial, complete_statements _, forms_of_nodeFree rfl,
    complete_expression _⟩ ?_
  refine ((adds_first hP).before ((adds_statements _).before ((adds_expectWord .kwUntil).before
    (adds_node _)))).le (le_of_eq ?_)
  simp only [Production.children, mul_assoc]

/-- A finished arm has its labels, a colon and a statement. -/
theorem complete_caseArm : caseArm.Forms rules Complete P := by
  refine .node_adds ⟨complete_expression _, forms_of_nodeFree rfl, trivial⟩ ?_
  refine ((adds_node _).before ((adds_expectSign .colon).before (adds_call adds_statement))).le
    (le_of_eq ?_)
  simp only [Production.children, mul_assoc]

/-- A finished `case` has its `of` and its `end`. -/
theorem complete_caseStatement (hP : ∀ s, P s → s.kind = .keyword .kwCase) :
    caseStatement.Forms rules Complete P := by
  refine .node_adds ⟨trivial, complete_expression _, forms_of_nodeFree rfl, ⟨?_, trivial, trivial⟩,
    forms_of_nodeFree rfl⟩ ?_
  · exact ⟨⟨trivial, complete_statements _⟩, trivial, complete_caseArm⟩
  · have harm {Q : State → Prop} : Adds rules Q
        (choose [(.keyword .kwElse, all [.bump, statements [.keyword .kwEnd]]),
          (.symbol .semi, .bump)] caseArm)
        (part .caseArm + sign .semi + word .kwElse * Production.statements) := by
      refine adds_choose ?_ ((adds_node _).le (le_trans le_self_add le_self_add))
      simp only [List.forall_mem_cons]
      exact ⟨((adds_word .kwElse).before (adds_statements _)).le le_add_self,
        (adds_sign .semi).le (le_trans le_add_self le_self_add), by simp⟩
    have harms : Adds rules (fun _ => True) _ Production.arms :=
      @Adds.loop _ _ _ _ (.not (.any [.keyword .kwEnd, .eof]))
        ((harm.ifMoved adds_skip (adds_fail .caseStatement)).le (mul_one _).le)
    refine ((adds_first hP).before ((adds_node _).before ((adds_expectWord .kwOf).before
      (harms.before (adds_expectWord .kwEnd))))).le (le_of_eq ?_)
    simp only [Production.children, mul_assoc]

theorem adds_handler :
    Adds rules (fun s => (Test.word "on".toList).holds s = true) handler Production.handler := by
  have hon : Adds rules (fun s => (Test.word "on".toList).holds s = true) .bump
      (leaf fun k => k.isWord "on".toList = true) := by
    refine adds_bump fun s hs => ⟨hs, fun heof => ?_⟩
    rw [Test.holds, heof] at hs
    cases hs
  refine (hon.before ((adds_node _).before
    ((adds_expectWord .kwDo).before ((adds_call adds_statement).before adds_optionalSemi)))).le
    (le_of_eq ?_)
  simp only [Production.handler, mul_assoc]

/-- A finished `try` has its handler and its `end`. -/
theorem complete_tryStatement (hP : ∀ s, P s → s.kind = .keyword .kwTry) :
    tryStatement.Forms rules Complete P := by
  refine .node_adds ⟨trivial, complete_statements _,
    ⟨?_, ⟨trivial, complete_statements _⟩, trivial⟩, forms_of_nodeFree rfl⟩ ?_
  · exact ⟨trivial, ⟨trivial, complete_expression _, forms_of_nodeFree rfl, trivial,
      forms_of_nodeFree rfl⟩, forms_of_nodeFree rfl, complete_statements _⟩
  · have hexcept {Q : State → Prop} :
        Adds rules (fun s => Q s ∧ (Test.keyword .kwExcept).holds s = true)
        (all [.bump, .loop (.word "on".toList) handler, when (.keyword .kwElse) .bump,
          statements [.keyword .kwEnd]])
        (word .kwExcept * (Production.handler∗
          * (optional (word .kwElse) * Production.statements))) :=
      (adds_word .kwExcept).before (adds_handler.loop.before ((Adds.when (adds_word .kwElse)).before
        (adds_statements _)))
    refine ((adds_first hP).before ((adds_statements _).before (Adds.before (L := Production.rescue)
      (adds_choose ?_ (adds_fail _)) (adds_expectWord .kwEnd)))).le (le_of_eq ?_)
    · simp only [List.forall_mem_cons, Production.rescue, mul_assoc]
      exact ⟨hexcept.le le_self_add,
        ((adds_word .kwFinally).before (adds_statements _)).le le_add_self, by simp⟩
    · simp only [Production.children, mul_assoc]

/-- All statements finish complete nodes. -/
theorem complete_statement : statement.Forms rules Complete P := by
  refine forms_choose ?_ (.node_any rfl trivial)
  simp only [List.forall_mem_cons]
  exact ⟨complete_compound, complete_conditional fun s hs => kind_of_keyword hs.2,
    complete_headed rfl fun s hs => kind_of_keyword hs.2, complete_headed rfl fun s hs =>
    kind_of_keyword hs.2, complete_headed rfl fun s hs => kind_of_keyword hs.2,
      complete_caseStatement fun s hs => kind_of_keyword hs.2, complete_repetition fun s hs =>
      kind_of_keyword hs.2, complete_tryStatement fun s hs => kind_of_keyword hs.2,
        .node_any rfl (forms_of_nodeFree rfl), trivial, by simp⟩

/-! ## Routines and units -/

theorem complete_rules (rule : Rule) : (rules rule).Forms rules Complete P := by
  cases rule with
  | statement => exact complete_statement
  | routine =>
    refine .node_any rfl ⟨complete_routineHeading, ⟨?_, trivial⟩⟩
    exact ⟨⟨.node_any rfl (forms_of_nodeFree rfl), trivial⟩,
      ⟨complete_compound, .node_any rfl (forms_of_nodeFree rfl), trivial⟩, forms_of_nodeFree rfl⟩

/-- **So does the whole grammar.** -/
theorem complete_unit : unit.Forms rules Complete P := by
  refine ⟨forms_choose ?_ (complete_errorToken _), trivial, complete_errorToken _⟩
  simp only [List.forall_mem_cons]
  exact ⟨.node_any rfl (forms_of_nodeFree rfl), forms_of_nodeFree rfl, forms_of_nodeFree rfl,
    complete_usesClause fun s hs => kind_of_keyword hs.2, ⟨trivial, complete_typeDecl⟩,
    .node_any rfl (forms_of_nodeFree rfl), trivial, .node_any rfl
    ⟨complete_compound, trivial, complete_statements _⟩, forms_of_nodeFree rfl, trivial, by simp⟩

end Grammar

/-- **Every node is complete**, whatever the tokens: its children are those that the production of
its kind asks for, also where the node stands below an `error` node. -/
theorem nodes_complete (tokens : List Token) :
    ∀ n ∈ (Token.parse tokens).root :: (Token.parse tokens).root.descendants,
      ∃ kind, n.kind? = some kind ∧ n.children ∈ Production.children kind := by
  obtain ⟨F, hframes, hforest⟩ := @exists_forest Complete (fun _ => trivial) Grammar.complete_rules
    Grammar.complete_unit tokens
  have hroot : (Token.parse tokens).root
      = Tree.ofChildren .unit F (Token.parseState tokens).offset := by
    rw [Token.parse, root_eq hframes]
  intro n hn
  rcases List.mem_cons.1 hn with rfl | hn
  · rw [hroot]
    exact ⟨.unit, Tree.kind?_ofChildren .., trivial⟩
  · rw [hroot, Tree.descendants_ofChildren] at hn
    exact hforest.fits_of_mem n hn

/-- A conditional without a statement behind `then`, in a `repeat` that is never closed. -/
theorem nodes_complete_below_error :
    ∃ e n, (Token.parse [⟨.keyword .kwBegin, 0, 5⟩, ⟨.keyword .kwRepeat, 6, 12⟩,
        ⟨.keyword .kwIf, 13, 15⟩, ⟨.ident ['a'], 16, 17⟩, ⟨.keyword .kwThen, 18, 22⟩,
        ⟨.keyword .kwElse, 23, 27⟩, ⟨.ident ['b'], 28, 29⟩, ⟨.eof, 29, 29⟩]).root.children = [e]
      ∧ e.kind? = some .error ∧ n ∈ e.descendants ∧ n.kind? = some .ifStmt
      ∧ n.children ∈ Production.children .ifStmt := by
  let conditional : Tree := .node .ifStmt 13 29 [.leaf ⟨.keyword .kwIf, 13, 15⟩,
    .node .expr 16 17 [.leaf ⟨.ident ['a'], 16, 17⟩], .leaf ⟨.keyword .kwThen, 18, 22⟩,
    .leaf ⟨.keyword .kwElse, 23, 27⟩, .node .simple 28 29 [.leaf ⟨.ident ['b'], 28, 29⟩]]
  let repetition : Tree := .node .error 6 29 [.leaf ⟨.keyword .kwRepeat, 6, 12⟩, conditional]
  let whole : Tree := .node .error 0 29 [.leaf ⟨.keyword .kwBegin, 0, 5⟩, repetition]
  have hroot :
      (Token.parse [⟨.keyword .kwBegin, 0, 5⟩, ⟨.keyword .kwRepeat, 6, 12⟩,
        ⟨.keyword .kwIf, 13, 15⟩, ⟨.ident ['a'], 16, 17⟩, ⟨.keyword .kwThen, 18, 22⟩,
        ⟨.keyword .kwElse, 23, 27⟩, ⟨.ident ['b'], 28, 29⟩, ⟨.eof, 29, 29⟩]).root
        = .node .unit 0 29 [whole] :=
    rfl
  have hmem : conditional ∈ whole.descendants := by
    simp [whole, repetition, conditional, Tree.descendants, Tree.descendantsOf]
  obtain ⟨kind, hkind, hchildren⟩ := nodes_complete _ conditional
    (by rw [hroot]; simp [whole, repetition, conditional, Tree.descendants, Tree.descendantsOf])
  obtain rfl : NodeKind.ifStmt = kind := Option.some.inj hkind
  exact ⟨whole, conditional, by rw [hroot]; rfl, rfl, hmem, rfl, hchildren⟩

end PascalAtlas
