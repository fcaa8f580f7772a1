import PascalAtlas.Proofs.Production
import PascalAtlas.SourceUnit.OfTree

/-!
# Statements as the tree nests them

The statements of a body are collected with a stack of open scopes, and whether a block becomes a
statement or adds its statements to the scope around it depends on **how many scopes are open**
when it is left. Here the same statements are given by recursion on the tree
(`Source.statementsOf`), without a stack: a block is one statement with the statements of its
children inside, the arm of a `case` is what its children are, and of all other nodes only simple
statements count. Below the outermost block at least two scopes are open, and there the stack does
what the recursion does (`Source.walk_eq`).

The recursion enters no node but blocks and arms. In the trees of the parser that loses nothing: a
statement that is not below an `error` node has only blocks and arms above it, up to the body it
belongs to (`regular_of_mem`). So going through the statements of a body meets **every statement
node that is not below an error**, in the order of the source (`Source.visit_statements`).
-/

namespace PascalAtlas

/-! ## Statements by recursion -/

namespace Source

variable (s : Source)

mutual

/-- The statements that a tree **adds to the list** in which it stands. -/
def statementsOf : Tree → List Statement
  | .leaf _ => []
  | .node kind start stop children =>
    let t := Tree.node kind start stop children
    if kind.isBlock then
      [.block (blockShape kind (s.blockHeader t)) (statementsIn children) (s.extentOf t)]
    else if kind = .caseArm then
      statementsIn children
    else if kind = .simple then
      [.simple (SimpleForm.ofText (t.text s.text)) (s.extentOf t)]
    else
      []

/-- The statements of some trees, one after the other. -/
def statementsIn : List Tree → List Statement
  | [] => []
  | t :: ts => statementsOf t ++ statementsIn ts

end

variable {s} {kind : NodeKind} {start stop : Nat} {children : List Tree}

/-- A block is **one** statement, with the statements of its children inside. -/
theorem statementsOf_block (hkind : kind.isBlock = true) :
    s.statementsOf (.node kind start stop children)
      = [.block (blockShape kind (s.blockHeader (.node kind start stop children)))
            (s.statementsIn children)
          (s.extentOf (.node kind start stop children))] := by
  rw [statementsOf]
  simp only [hkind, if_true]

/-- The arm of a `case` adds what its children are. -/
theorem statementsOf_caseArm :
    s.statementsOf (.node .caseArm start stop children) = s.statementsIn children := by
  rw [statementsOf]
  rfl

/-- A simple statement is read from its text. -/
theorem statementsOf_simple :
    s.statementsOf (.node .simple start stop children)
      = [.simple (SimpleForm.ofText (Tree.text s.text (.node .simple start stop children)))
          (s.extentOf (.node .simple start stop children))] := by
  rw [statementsOf]
  rfl

/-- Of all other nodes nothing counts. -/
theorem statementsOf_other (hblock : kind.isBlock = false) (harm : kind ≠ .caseArm)
    (hsimple : kind ≠ .simple) :
    s.statementsOf (.node kind start stop children) = [] := by
  rw [statementsOf]
  simp only [hblock, Bool.false_eq_true, if_false, if_neg harm, if_neg hsimple]

/-! ## The stack -/

/-- A block that is left with **two or more scopes around it** is one statement. -/
theorem leaveBlock_eq (kind : NodeKind) (block : Tree) (body top outer : List Statement)
    (scopes : Scopes) :
    s.leaveBlock kind block (body :: top :: outer :: scopes)
      = (top ++ [.block (blockShape kind (s.blockHeader block)) body (s.extentOf block)])
        :: outer :: scopes := by
  have hdeep : ¬ (kind = .compound ∧ (top :: outer :: scopes).length = 1) := by simp
  rw [leaveBlock, if_neg hdeep]
  rfl

mutual

/-- Inside a body the stack gains **what the recursion gives**, in its innermost scope. -/
theorem walk_eq : (t : Tree) → (top outer : List Statement) → (scopes : Scopes) →
    s.walk t (top :: outer :: scopes) = (top ++ s.statementsOf t) :: outer :: scopes
  | .leaf token, top, outer, scopes => by
    rw [walk, statementsOf, List.append_nil]
  | .node kind start stop children, top, outer, scopes => by
    rw [walk]
    by_cases hblock : kind.isBlock = true
    · rw [if_pos hblock, walkAll_eq children [] top (outer :: scopes), leaveBlock_eq,
        statementsOf_block hblock, List.nil_append]
    rw [if_neg hblock]
    by_cases harm : kind = .caseArm
    · subst harm
      rw [if_pos rfl, walkAll_eq children top outer scopes, statementsOf_caseArm]
    rw [if_neg harm]
    by_cases hsimple : kind = .simple
    · subst hsimple
      rw [if_pos rfl, statementsOf_simple]
      rfl
    rw [if_neg hsimple, statementsOf_other (Bool.eq_false_iff.2 hblock) harm hsimple,
      List.append_nil]

/-- Below the outermost block the stack does what the recursion does, tree by tree. -/
theorem walkAll_eq : (ts : List Tree) → (top outer : List Statement) → (scopes : Scopes) →
    s.walkAll ts (top :: outer :: scopes) = (top ++ s.statementsIn ts) :: outer :: scopes
  | [], top, outer, scopes => by
    rw [walkAll, statementsIn, List.append_nil]
  | t :: ts, top, outer, scopes => by
    rw [walkAll, walk_eq t top outer scopes, walkAll_eq ts (top ++ s.statementsOf t) outer scopes,
      statementsIn, List.append_assoc]

end

/-- The **outermost** `begin … end` adds the statements of its children directly. -/
theorem statements_eq {block : Tree} (hblock : block.kind? = some .compound) :
    s.statements block = s.statementsIn block.children := by
  cases block with
  | leaf token => cases hblock
  | node kind start stop children =>
    obtain rfl : kind = .compound := Option.some.inj hblock
    rw [statements, walk]
    simp only [NodeKind.isBlock, if_true]
    rw [walkAll_eq children [] [] []]
    rfl

end Source

/-! ## Nodes that are below no error -/

namespace Tree

mutual

/-- The nodes of a tree, the tree itself the first, of which none is an `error` node or **below
one**. Each stands before the nodes inside it. -/
def soundNodes : Tree → List Tree
  | .leaf _ => []
  | .node kind start stop children =>
    if kind = .error then [] else .node kind start stop children :: soundNodesOf children

/-- The nodes of some trees, one tree after the other. -/
def soundNodesOf : List Tree → List Tree
  | [] => []
  | t :: ts => t.soundNodes ++ soundNodesOf ts

end

/-- Whether a tree is a **statement node**. -/
def isStatement (t : Tree) : Bool :=
  t.kind?.any NodeKind.isStatement

/-- Among leaves there is no node. -/
theorem soundNodesOf_eq_nil {ts : List Tree} (hts : ∀ t ∈ ts, t.kind? = none) :
    soundNodesOf ts = [] := by
  induction ts with
  | nil => rfl
  | cons t ts ih =>
    rw [soundNodesOf, ih fun u hu => hts u (List.mem_cons_of_mem _ hu)]
    cases t with
    | leaf token => rfl
    | node kind start stop children => cases hts _ (List.mem_cons_self ..)

theorem descendantsOf_cons (t : Tree) (ts : List Tree) :
    descendantsOf (t :: ts) = descendantsOf [t] ++ descendantsOf ts :=
  descendantsOf_append [t] ts

theorem descendantsOf_node (kind : NodeKind) (start stop : Nat) (children : List Tree) :
    descendantsOf [.node kind start stop children]
      = .node kind start stop children :: descendantsOf children := by
  rw [descendantsOf, descendantsOf, List.append_nil]

/-- What is below a tree is what is among its children. -/
theorem descendants_eq (t : Tree) : t.descendants = descendantsOf t.children := by
  cases t with
  | leaf token => rw [descendants, children, descendantsOf]
  | node kind start stop children => rfl

/-- What is below a descendant is **a descendant** too. -/
theorem descendantsOf_trans {n m : Tree} (hm : m ∈ n.descendants) :
    (ts : List Tree) → n ∈ descendantsOf ts → m ∈ descendantsOf ts
  | [], h => by
    rw [descendantsOf] at h
    cases h
  | .leaf token :: ts, h => by
    rw [descendantsOf] at h ⊢
    exact descendantsOf_trans hm ts h
  | .node kind start stop children :: ts, h => by
    rw [descendantsOf, List.mem_cons, List.mem_append] at h ⊢
    rcases h with rfl | h | h
    · exact .inr (.inl hm)
    · exact .inr (.inl (descendantsOf_trans hm children h))
    · exact .inr (.inr (descendantsOf_trans hm ts h))

end Tree

/-! ## What stands inside a statement -/

namespace NodeKind

/-- The kinds of nodes that stand **inside blocks and arms**. -/
def inBlock (kind : NodeKind) : Bool :=
  kind.isStatement || kind == .caseArm || kind == .expr || kind == .error

/-- Whether a node of one kind may have a child of another. Of declarations nothing is said. -/
def admits (outer inner : NodeKind) : Bool :=
  if outer.isBlock || outer == .caseArm then inner.inBlock
    else !(outer == .simple || outer == .expr)

/-- All blocks have the same kinds of nodes in them. -/
theorem admits_of_block {outer : NodeKind} (houter : outer.isBlock = true) (inner : NodeKind) :
    outer.admits inner = inner.inBlock := by
  rw [admits, houter]
  rfl

end NodeKind

/-- A node is **regular** if its kind admits all its children that are nodes. -/
def Tree.Regular (n : Tree) : Prop :=
  ∀ outer, n.kind? = some outer → ∀ c ∈ n.children, ∀ inner, c.kind? = some inner →
    outer.admits inner = true

namespace Production

/-- Trees of which those that are nodes have kinds that satisfy a test. -/
def within (p : NodeKind → Prop) : Language Tree :=
  {F | ∀ t ∈ F, ∀ kind, t.kind? = some kind → p kind}

variable {p : NodeKind → Prop} {L M : Language Tree}

/-- Leaves are allowed everywhere. -/
theorem leaf_within (q : TokenKind → Prop) : leaf q ≤ within p := by
  rintro F ⟨token, -, rfl⟩ t ht kind hkind
  rw [List.mem_singleton.1 ht] at hkind
  cases hkind

/-- A node is allowed if its kind is. -/
theorem partOf_within {q : NodeKind → Prop} (h : ∀ kind, q kind → p kind) :
    partOf q ≤ within p := by
  rintro F ⟨n, kind, hkind, hq, rfl⟩ t ht kind' hkind'
  rw [List.mem_singleton.1 ht, hkind] at hkind'
  exact Option.some.inj hkind' ▸ h kind hq

theorem one_within : 1 ≤ within p := by
  intro F hF t ht
  rw [(Language.mem_one F).1 hF] at ht
  cases ht

/-- A product keeps to the kinds its factors keep to. -/
theorem mul_within (hL : L ≤ within p) (hM : M ≤ within p) : L * M ≤ within p := by
  intro F hF t ht
  obtain ⟨G, hG, H, hH, rfl⟩ := Language.mem_mul.1 hF
  rcases List.mem_append.1 ht with ht | ht
  · exact hL hG t ht
  · exact hM hH t ht

/-- So does a star. -/
theorem kstar_within (hL : L ≤ within p) : KStar.kstar L ≤ within p := by
  intro F hF t ht
  obtain ⟨Gs, rfl, hGs⟩ := Language.mem_kstar.1 hF
  obtain ⟨G, hG, htG⟩ := List.mem_flatten.1 ht
  exact hL (hGs G hG) t htG

/-- So does a sum. -/
theorem add_within (hL : L ≤ within p) (hM : M ≤ within p) : L + M ≤ within p :=
  add_le hL hM

theorem optional_within (hL : L ≤ within p) : optional L ≤ within p :=
  add_within one_within hL

/-- **Blocks and arms** have no other nodes inside than statements, arms, expressions and errors. -/
theorem children_within {kind : NodeKind} (hkind : (kind.isBlock || kind == .caseArm) = true) :
    children kind ≤ within fun inner => inner.inBlock = true := by
  -- The parts of which all bodies are made, the smaller ones first.
  have hexpr : part .expr ≤ within fun inner => inner.inBlock = true :=
    partOf_within (by rintro _ rfl; rfl)
  have hstatement : partOf (fun kind => kind.isStatement = true) ≤ within fun inner =>
    inner.inBlock = true := by
    refine partOf_within fun inner hinner => ?_
    rw [NodeKind.inBlock, hinner]
    rfl
  have hoptional : statement ≤ within fun inner => inner.inBlock = true :=
    optional_within hstatement
  have hstatements : statements ≤ within fun inner => inner.inBlock = true :=
    kstar_within (add_within (add_within hstatement (partOf_within (by rintro _ rfl; rfl)))
      (leaf_within _))
  have hheaded (k k' : Keyword) : word k * part .expr * word k' * statement
      ≤ within fun inner => inner.inBlock = true :=
    mul_within (mul_within (mul_within (leaf_within _) hexpr) (leaf_within _)) hoptional
  have hhandler : handler ≤ within fun inner => inner.inBlock = true :=
    mul_within
      (mul_within (mul_within (mul_within (leaf_within _) hexpr) (leaf_within _)) hoptional)
      (optional_within (leaf_within _))
  have hrescue : rescue ≤ within fun inner => inner.inBlock = true :=
    add_within
      (mul_within (mul_within (mul_within (leaf_within _) (kstar_within hhandler))
        (optional_within (leaf_within _))) hstatements)
      (mul_within (leaf_within _) hstatements)
  have harms : arms ≤ within fun inner => inner.inBlock = true :=
    kstar_within (add_within (add_within (partOf_within (by rintro _ rfl; rfl)) (leaf_within _))
      (mul_within (leaf_within _) hstatements))
  -- What a kind has inside is a product of these parts; a kind that is neither a block nor
  -- an arm is ruled out.
  cases kind with
  | compound => exact mul_within (mul_within (leaf_within _) hstatements) (leaf_within _)
  | ifStmt =>
    exact mul_within (hheaded _ _) (optional_within (mul_within (leaf_within _) hoptional))
  | whileStmt => exact hheaded _ _
  | forStmt => exact hheaded _ _
  | withStmt => exact hheaded _ _
  | repeatStmt =>
    exact mul_within (mul_within (mul_within (leaf_within _) hstatements) (leaf_within _)) hexpr
  | caseStmt =>
    exact mul_within (mul_within (mul_within (mul_within (leaf_within _) hexpr) (leaf_within _))
      harms) (leaf_within _)
  | caseArm => exact mul_within (mul_within hexpr (leaf_within _)) hoptional
  | tryStmt =>
    exact mul_within (mul_within (mul_within (leaf_within _) hstatements) hrescue) (leaf_within _)
  | _ => cases hkind

end Production

/-! ## Simple statements -/

/-- The children of a simple statement are **leaves**. Of other nodes nothing is said. -/
def FlatSimple (kind : NodeKind) (F : List Tree) : Prop :=
  kind = .simple → F ∈ Production.leaves

namespace Step

/-- Whether a step makes simple statements **of leaves only**. -/
def flatSimple : Step → Bool
  | .seq a c => a.flatSimple && c.flatSimple
  | .branch _ yes no => yes.flatSimple && no.flatSimple
  | .loop _ body => body.flatSimple
  | .ifMoved body moved still => body.flatSimple && moved.flatSimple && still.flatSimple
  | .node kind body => (kind != .simple || body.plain) && body.flatSimple
  | .guarded _ body => body.flatSimple
  | _ => true

/-- A step that finishes no other simple statements keeps them flat. -/
theorem forms_of_flatSimple {grammar : Rule → Step} {P : State → Prop} {a : Step}
    (h : a.flatSimple = true) :
    a.Forms grammar FlatSimple P := by
  induction a generalizing P with
  | seq a c iha ihc =>
    rw [flatSimple, Bool.and_eq_true] at h
    exact ⟨iha h.1, ihc h.2⟩
  | branch test yes no ihyes ihno =>
    rw [flatSimple, Bool.and_eq_true] at h
    exact ⟨ihyes h.1, ihno h.2⟩
  | loop test body ih => exact ih h
  | ifMoved body moved still ihbody ihmoved ihstill =>
    rw [flatSimple, Bool.and_eq_true, Bool.and_eq_true] at h
    exact ⟨ihbody h.1.1, ihmoved h.1.2, ihstill h.2⟩
  | node kind body ih =>
    rw [flatSimple, Bool.and_eq_true, Bool.or_eq_true, bne_iff_ne] at h
    rcases h.1 with hne | hplain
    · exact adds_top.forms_node (fun F _ hkind => absurd hkind hne) (ih h.2)
    · exact (adds_plain hplain).forms_node (fun F hF _ => hF) (ih h.2)
  | guarded recovery body ih => exact ih h
  | _ => trivial

end Step

/-! ## The trees of the parser -/

/-- **Every node below the root fits**, if each place of the grammar that finishes
a node sees to that. -/
theorem fits_of_mem_descendants (fits : NodeKind → List Tree → Prop) (herror : ∀ F, fits .error F)
    (hrules : ∀ rule, (Grammar.rules rule).Forms Grammar.rules fits fun _ => True)
    (hunit : Grammar.unit.Forms Grammar.rules fits fun _ => True) {tokens : List Token} {n : Tree}
    (hn : n ∈ (Token.parse tokens).root.descendants) :
    ∃ kind, n.kind? = some kind ∧ fits kind n.children := by
  obtain ⟨F, hframes, hforest⟩ := exists_forest herror hrules hunit tokens
  rw [Token.parse, root_eq hframes, Tree.descendants_ofChildren] at hn
  exact hforest.fits_of_mem n hn

/-- A simple statement has **leaves only**. -/
theorem mem_leaves_of_simple {tokens : List Token} {n : Tree}
    (hn : n ∈ (Token.parse tokens).root.descendants) (hkind : n.kind? = some .simple) :
    n.children ∈ Production.leaves := by
  have hrules (rule : Rule) : (Grammar.rules rule).flatSimple = true := by
    cases rule <;> rfl
  obtain ⟨kind, hkind', hflat⟩ := fits_of_mem_descendants FlatSimple (fun F hF => by cases hF)
    (fun rule => Step.forms_of_flatSimple (hrules rule)) (Step.forms_of_flatSimple rfl) hn
  rw [hkind] at hkind'
  exact hflat (Option.some.inj hkind').symm

/-- **Every node is regular** in the tree of some tokens. -/
theorem regular_of_mem {tokens : List Token} {n : Tree}
    (hn : n ∈ (Token.parse tokens).root.descendants) :
    n.Regular := by
  intro outer houter c hc inner hinner
  obtain ⟨kind, hkind, hcomplete⟩ := fits_of_mem_descendants Complete (fun _ => trivial)
    (fun rule => Grammar.complete_rules rule) Grammar.complete_unit hn
  obtain rfl : kind = outer := by
    rw [houter] at hkind
    exact (Option.some.inj hkind).symm
  rw [NodeKind.admits]
  split
  next hblock => exact Production.children_within hblock hcomplete c hc inner hinner
  next hblock =>
    -- Simple statements and expressions have leaves only, so there is no such child.
    have hleaves (h : n.children ∈ Production.leaves) : False :=
      Production.kstar_within (p := fun _ => False) (Production.leaf_within _) h c hc inner hinner
    rw [Bool.not_eq_true', Bool.eq_false_iff]
    intro hflat
    rw [Bool.or_eq_true, beq_iff_eq, beq_iff_eq] at hflat
    rcases hflat with rfl | rfl
    · exact hleaves (mem_leaves_of_simple hn houter)
    · exact hleaves hcomplete

/-! ## Going through the statements -/

namespace Statement

/-- Two lists of statements are visited one after the other. -/
theorem visitAll_append (a b : List Statement) : visitAll (a ++ b) = visitAll a ++ visitAll b := by
  induction a with
  | nil => rfl
  | cons st a ih => rw [List.cons_append, visitAll, visitAll, ih, List.append_assoc]

end Statement

namespace Source

open Statement (visitAll)

variable {s : Source}

mutual

/-- Going through the statements of a tree meets its statement nodes **one by one**: each
gives one statement. -/
theorem visit_statementsOf : (t : Tree) → (∀ n ∈ Tree.descendantsOf [t], n.Regular) →
    (∀ kind, t.kind? = some kind → kind.inBlock = true) →
    (visitAll (s.statementsOf t)).map ([·])
      = (t.soundNodes.filter Tree.isStatement).map s.statementsOf
  | .leaf token, _, _ => by
    rw [statementsOf, Tree.soundNodes]
    rfl
  | .node kind start stop children, hregular, hinner => by
    rw [Tree.descendantsOf_node] at hregular
    obtain ⟨hnode, hbelow⟩ := List.forall_mem_cons.1 hregular
    have hadmits : ∀ c ∈ children, ∀ inner, c.kind? = some inner →
        kind.admits inner = true := hnode kind rfl
    rw [Tree.soundNodes]
    by_cases hblock : kind.isBlock = true
    · have herror : kind ≠ .error := by rintro rfl; cases hblock
      have hstatement : Tree.isStatement (.node kind start stop children) = true := by
        show (kind.isBlock || _) = true
        rw [hblock, Bool.true_or]
      have hchildren := visit_statementsIn children hbelow fun c hc inner h => by
        rw [← NodeKind.admits_of_block hblock]
        exact hadmits c hc inner h
      rw [if_neg herror, List.filter_cons_of_pos hstatement, List.map_cons, ← hchildren,
        statementsOf_block hblock, visitAll, Statement.visit, visitAll,
        List.append_nil, List.map_cons]
    by_cases harm : kind = .caseArm
    · subst harm
      rw [if_neg (by decide), List.filter_cons_of_neg Bool.false_ne_true, statementsOf_caseArm]
      exact visit_statementsIn children hbelow hadmits
    by_cases herror : kind = .error
    · subst herror
      rw [if_pos rfl, statementsOf_other rfl (by decide) (by decide)]
      rfl
    -- What is left are simple statements and expressions, which have leaves only.
    have hflat : kind = .simple ∨ kind = .expr := by
      have hkind := hinner kind rfl
      cases kind with
      | simple => exact .inl rfl
      | expr => exact .inr rfl
      | _ => simp_all [NodeKind.inBlock, NodeKind.isStatement, NodeKind.isBlock]
    have hnone : ∀ c ∈ children, c.kind? = none := by
      intro c hc
      refine Option.eq_none_iff_forall_ne_some.2 fun inner h => ?_
      have hinner := hadmits c hc inner h
      rcases hflat with rfl | rfl <;> cases hinner
    rw [if_neg herror, Tree.soundNodesOf_eq_nil hnone]
    rcases hflat with rfl | rfl
    · rw [List.filter_cons_of_pos rfl, List.map_cons, statementsOf_simple]
      rfl
    · rw [List.filter_cons_of_neg Bool.false_ne_true,
        statementsOf_other rfl (by decide) (by decide)]
      rfl

/-- Visiting the statements of a body meets **each node that is a statement once**, in the order of
the tree. -/
theorem visit_statementsIn : (ts : List Tree) → (∀ n ∈ Tree.descendantsOf ts, n.Regular) →
    (∀ t ∈ ts, ∀ kind, t.kind? = some kind → kind.inBlock = true) →
    (visitAll (s.statementsIn ts)).map ([·])
      = ((Tree.soundNodesOf ts).filter Tree.isStatement).map s.statementsOf
  | [], _, _ => by
    rw [statementsIn, Tree.soundNodesOf]
    rfl
  | t :: ts, hregular, hinner => by
    rw [Tree.descendantsOf_cons, List.forall_mem_append] at hregular
    rw [List.forall_mem_cons] at hinner
    rw [statementsIn, Statement.visitAll_append, List.map_append,
      visit_statementsOf t hregular.1 hinner.1, visit_statementsIn ts hregular.2 hinner.2,
      Tree.soundNodesOf, List.filter_append, List.map_append]

end

/-- Going through the statements of a body in the tree of some tokens. -/
theorem visit_statements {tokens : List Token} {block : Tree}
    (hmem : block ∈ (Token.parse tokens).root.descendants) (hblock : block.kind? = some .compound) :
    (visitAll (s.statements block)).map ([·])
      = ((Tree.soundNodesOf block.children).filter Tree.isStatement).map s.statementsOf := by
  rw [statements_eq hblock]
  refine visit_statementsIn block.children (fun n hn => ?_) ?_
  · rw [← Tree.descendants_eq] at hn
    rw [Tree.descendants_eq] at hmem
    refine regular_of_mem (n := n) (?_ : n ∈ (Token.parse tokens).root.descendants)
    rw [Tree.descendants_eq]
    exact Tree.descendantsOf_trans hn _ hmem
  · intro c hc inner h
    exact regular_of_mem hmem .compound hblock c hc inner h

end Source

end PascalAtlas
