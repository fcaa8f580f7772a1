import PascalAtlas.Proofs.Attached
import PascalAtlas.Proofs.Captured
import PascalAtlas.Proofs.Located
import PascalAtlas.Proofs.MaskedUnit

/-!
# Extents that nest

The extent of a statement is that of its node, in lines and columns. The children of a node follow
one another between its two offsets (`Forest.ordered`), and positions keep the order of the offsets.
So the statements of a block lie one after the other inside the block, also where the arms of a
`case`, the branches of a conditional and the handlers of a `try` have been put into **one list**:
what is between them, and the nodes that are left out, only takes up room
(`Source.statementsIn_inOrder`).

A routine has the extent of its declaration, and the block with its statements is a child of that.
When it completes the declaration of a method, its statements and its extent go there **together**,
so whatever relates the two is kept (`SourceUnit.Attached.all_routines`).
-/

namespace PascalAtlas

open Statement (visitAll)

/-! ## Children between the offsets of their node -/

namespace InOrder

variable {lo hi : Nat} {F : List Tree}

/-- Trees in order end where the last of them does. -/
theorem to_last (h : InOrder lo hi F) {last : Tree} (hlast : F.getLast? = some last) :
    InOrder lo last.stop F := by
  induction F generalizing lo with
  | nil => cases hlast
  | cons t ts ih =>
    refine ⟨h.1, h.2.1, ?_⟩
    cases ts with
    | nil =>
      obtain rfl : t = last := by simpa using hlast
      exact Nat.le_refl _
    | cons u us =>
      rw [List.getLast?_cons_cons] at hlast
      exact ih h.2.2 hlast

end InOrder

/-- A node whose children lie one after the other **between its two offsets**. -/
def Tree.Ordered (n : Tree) : Prop :=
  InOrder n.start n.stop n.children

/-- A node that is made of trees in order is ordered. -/
theorem Tree.ordered_ofChildren {lo hi : Nat} {F : List Tree} (h : InOrder lo hi F)
    (kind : NodeKind) (offset : Nat) :
    (Tree.ofChildren kind F offset).Ordered := by
  rw [Ordered, children_ofChildren]
  cases F with
  | nil => exact Nat.le_refl offset
  | cons t ts =>
    obtain ⟨first, last, hfirst, hlast⟩ := exists_first_last (List.cons_ne_nil t ts)
    obtain ⟨hstart, hstop⟩ := span_ofChildren kind offset h hfirst hlast
    obtain rfl : t = first := Option.some.inj hfirst
    rw [hstart, hstop]
    have htight := h.to_last hlast
    exact ⟨Nat.le_refl _, htight.2⟩

/-- **Every node of a forest is ordered.** -/
theorem Forest.ordered {fits : NodeKind → List Tree → Prop} {src : Text} {last : Nat}
    {r r' : List Token} {F : List Tree} (h : Forest fits last r F r') :
    ∀ pos, Token.Stream src pos r → ∀ n ∈ Tree.descendantsOf F, n.Ordered := by
  induction h with
  | nil => simp [Tree.descendantsOf]
  | leaf => simp [Tree.descendantsOf]
  | @node kind r r' F inside _ ih =>
    intro pos hr n hn
    rw [Tree.descendantsOf_ofChildren] at hn
    rcases List.mem_cons.1 hn with rfl | hn
    · exact Tree.ordered_ofChildren (inside.spanned pos hr).2.inOrder kind _
    · exact ih pos hr n hn
  | append left _ ihF ihG =>
    intro pos hr n hn
    rw [Tree.descendantsOf_append] at hn
    rcases List.mem_append.1 hn with hn | hn
    · exact ihF pos hr n hn
    · obtain ⟨⟨pos₁, hr₁⟩, -⟩ := left.spanned pos hr
      exact ihG pos₁ hr₁ n hn

/-- In the tree of a text the children of **every** node are in order. -/
theorem ordered_of_mem {src : Text} {tokens : List Token} (h : Token.lex src = .ok tokens)
    {n : Tree} (hn : n ∈ (Token.parse tokens).root.descendants) : n.Ordered := by
  obtain ⟨F, hframes, hforest⟩ :=
    exists_forest (fun _ => trivial) (fun rule => Step.forms_trivial _ _)
    (Step.forms_trivial _ _) tokens
  rw [Token.parse, root_eq hframes, Tree.descendants_ofChildren] at hn
  exact hforest.ordered 0 (Token.stream_lex h) n hn

/-! ## Statements one after the other -/

namespace Statement

/-- Statements lie **one after the other** between two positions. -/
def InOrder (lo hi : Position) : List Statement → Prop
  | [] => lo ≤ hi
  | st :: sts =>
    lo ≤ st.extent.start ∧ st.extent.start ≤ st.extent.stop ∧ InOrder st.extent.stop hi sts

namespace InOrder

variable {lo mid hi : Position} {a b : List Statement}

theorem mono_left (h : InOrder mid hi a) (hle : lo ≤ mid) : InOrder lo hi a := by
  cases a with
  | nil => exact Position.le_trans hle h
  | cons st sts => exact ⟨Position.le_trans hle h.1, h.2⟩

/-- Statements in order, one list behind the other. -/
theorem append (ha : InOrder lo mid a) (hb : InOrder mid hi b) : InOrder lo hi (a ++ b) := by
  induction a generalizing lo with
  | nil => exact hb.mono_left ha
  | cons st sts ih => exact ⟨ha.1, ha.2.1, ih ha.2.2⟩

/-- The bounds are in order, with or without statements between them. -/
theorem le (h : InOrder lo hi a) : lo ≤ hi := by
  induction a generalizing lo with
  | nil => exact h
  | cons st sts ih => exact Position.le_trans h.1 (Position.le_trans h.2.1 (ih h.2.2))

/-- Every statement lies between the bounds. -/
theorem mem (h : InOrder lo hi a) : ∀ st ∈ a, lo ≤ st.extent.start ∧ st.extent.stop ≤ hi := by
  induction a generalizing lo with
  | nil => exact fun st hst => (List.not_mem_nil hst).elim
  | cons first sts ih =>
    intro st hst
    rcases List.mem_cons.1 hst with rfl | hst
    · exact ⟨h.1, h.2.2.le⟩
    · obtain ⟨hstart, hstop⟩ := ih h.2.2 st hst
      exact ⟨Position.le_trans h.1 (Position.le_trans h.2.1 hstart), hstop⟩

/-- And before the next one. -/
theorem isChain (h : InOrder lo hi a) :
    a.IsChain fun st next => st.extent.stop ≤ next.extent.start := by
  induction a generalizing lo with
  | nil => exact .nil
  | cons st sts ih =>
    have hsts := ih h.2.2
    cases sts with
    | nil => exact .singleton st
    | cons next sts => exact .cons_cons h.2.2.1 hsts

end InOrder

end Statement

/-- Statements that lie **inside** an extent, each behind the one before it. -/
structure Extent.Holds (e : Extent) (body : List Statement) : Prop where
  inside : ∀ st ∈ body, e.start ≤ st.extent.start ∧ st.extent.stop ≤ e.stop
  apart : body.IsChain fun st next => st.extent.stop ≤ next.extent.start

/-- Statements in order between two bounds lie in an extent that has both. -/
theorem Statement.InOrder.holds {lo hi : Position} {body : List Statement}
    (h : InOrder lo hi body) {e : Extent} (hlo : e.start ≤ lo) (hhi : hi ≤ e.stop) :
    e.Holds body where
  inside st hst := ⟨Position.le_trans hlo (h.mem st hst).1, Position.le_trans (h.mem st hst).2 hhi⟩
  apart := h.isChain

/-- A routine whose extents **nest**. -/
structure Routine.Nested (r : Routine) : Prop where
  /-- No statement, however deep, ends before it begins. -/
  forward : ∀ st ∈ visitAll r.statements, st.extent.start ≤ st.extent.stop
  /-- The statements of the routine lie inside the routine … -/
  holds : r.extent.Holds r.statements
  /-- … and those of every block inside the block. -/
  blocks : ∀ st ∈ visitAll r.statements, ∀ body, st.body? = some body → st.extent.Holds body

/-! ## The statements of a tree -/

namespace Source

/-- A source text in which positions keep the order of the offsets. -/
def Monotone (s : Source) : Prop :=
  ∀ {a b : Nat}, a ≤ b → s.lines.position a ≤ s.lines.position b

variable {s : Source}

mutual

/-- The statements of a tree are in order between its two offsets, by recursion on it. -/
theorem statementsOf_inOrder (hs : s.Monotone) :
    (t : Tree) → (∀ n ∈ Tree.descendantsOf [t], n.Ordered) →
    t.start ≤ t.stop → Statement.InOrder (s.extentOf t).start (s.extentOf t).stop (s.statementsOf t)
  | .leaf token, _, hle => by
    rw [statementsOf]
    exact hs hle
  | .node kind start stop children, hordered, hle => by
    rw [Tree.descendantsOf_node] at hordered
    obtain ⟨hnode, hbelow⟩ := List.forall_mem_cons.1 hordered
    -- One statement that covers what the node covers.
    have hone (st : Statement) (hst : st.extent = s.extentOf (.node kind start stop children)) :
        Statement.InOrder (s.extentOf (.node kind start stop children)).start
          (s.extentOf (.node kind start stop children)).stop [st] := by
      rw [Statement.InOrder, Statement.InOrder, hst]
      exact ⟨Position.le_refl _, hs hle, Position.le_refl _⟩
    by_cases hblock : kind.isBlock = true
    · rw [statementsOf_block hblock]
      exact hone _ rfl
    by_cases harm : kind = .caseArm
    · subst harm
      rw [statementsOf_caseArm]
      exact statementsIn_inOrder hs children hbelow hnode
    by_cases hsimple : kind = .simple
    · subst hsimple
      rw [statementsOf_simple]
      exact hone _ rfl
    rw [statementsOf_other (Bool.eq_false_iff.2 hblock) harm hsimple]
    exact hs hle

/-- The statements of trees in order are **in order**, between the positions of the same offsets. -/
theorem statementsIn_inOrder (hs : s.Monotone) :
    (ts : List Tree) → (∀ n ∈ Tree.descendantsOf ts, n.Ordered) →
    {lo hi : Nat} → InOrder lo hi ts →
    Statement.InOrder (s.lines.position lo) (s.lines.position hi) (s.statementsIn ts)
  | [], _, lo, hi, h => by
    rw [statementsIn]
    exact hs h
  | t :: ts, hordered, lo, hi, h => by
    rw [Tree.descendantsOf_cons, List.forall_mem_append] at hordered
    have hfirst := statementsOf_inOrder hs t hordered.1 h.2.1
    have hrest := statementsIn_inOrder hs ts hordered.2 h.2.2
    rw [statementsIn]
    exact (hfirst.append hrest).mono_left (hs h.1)

end

end Source

/-! ## Nodes of statements -/

namespace Tree

mutual

/-- Nodes that are not below an `error` are nodes of the tree. -/
theorem soundNodes_subset : (t : Tree) → ∀ n ∈ t.soundNodes, n ∈ descendantsOf [t]
  | .leaf token, n, hn => by
    rw [soundNodes] at hn
    cases hn
  | .node kind start stop children, n, hn => by
    rw [descendantsOf_node]
    rw [soundNodes] at hn
    split at hn
    · cases hn
    · rcases List.mem_cons.1 hn with rfl | hn
      · exact List.mem_cons_self ..
      · exact List.mem_cons_of_mem _ (soundNodesOf_subset children n hn)

theorem soundNodesOf_subset : (ts : List Tree) → ∀ n ∈ soundNodesOf ts, n ∈ descendantsOf ts
  | [], n, hn => by
    rw [soundNodesOf] at hn
    cases hn
  | t :: ts, n, hn => by
    rw [descendantsOf_cons, List.mem_append]
    rw [soundNodesOf, List.mem_append] at hn
    rcases hn with hn | hn
    · exact .inl (soundNodes_subset t n hn)
    · exact .inr (soundNodesOf_subset ts n hn)

end

end Tree

namespace Source

variable {s : Source}

/-- The **node of a statement** that going through a body meets. -/
theorem exists_node {tokens : List Token} {block : Tree}
    (hmem : block ∈ (Token.parse tokens).root.descendants) (hblock : block.kind? = some .compound)
    {st : Statement} (hst : st ∈ visitAll (s.statements block)) :
    ∃ n ∈ (Token.parse tokens).root.descendants, n.isStatement = true
      ∧ s.statementsOf n = [st] := by
  have hvisited : [st] ∈ (visitAll (s.statements block)).map ([·]) := List.mem_map_of_mem hst
  rw [visit_statements hmem hblock] at hvisited
  obtain ⟨n, hn, hof⟩ := List.mem_map.1 hvisited
  obtain ⟨hsound, hstatement⟩ := List.mem_filter.1 hn
  refine ⟨n, ?_, hstatement, hof⟩
  rw [Tree.descendants_eq] at hmem ⊢
  refine Tree.descendantsOf_trans ?_ _ hmem
  rw [Tree.descendants_eq]
  exact Tree.soundNodesOf_subset _ n hsound

/-- A statement covers **what its node covers**, and what is inside it are the statements of the
children of the node. -/
theorem statement_of_node {n : Tree} (hn : n.isStatement = true) {st : Statement}
    (hof : s.statementsOf n = [st]) :
    st.extent = s.extentOf n ∧ ∀ body, st.body? = some body → body = s.statementsIn n.children := by
  cases n with
  | leaf token => cases hn
  | node kind start stop children =>
    by_cases hblock : kind.isBlock = true
    · rw [statementsOf_block hblock] at hof
      obtain rfl := (List.cons.inj hof).1
      exact ⟨rfl, fun body hbody => (Option.some.inj hbody).symm⟩
    · obtain rfl : kind = .simple := by
        have hkind : (kind.isBlock || kind == .simple) = true := hn
        rw [Bool.eq_false_iff.2 hblock, Bool.false_or, beq_iff_eq] at hkind
        exact hkind
      rw [statementsOf_simple] at hof
      obtain rfl := (List.cons.inj hof).1
      exact ⟨rfl, fun body hbody => by cases hbody⟩

/-- The extents of the statements of a **body** nest, and so do those of a routine around it. -/
theorem nested_of_block {src : Text} {tokens : List Token} (hlex : Token.lex src = .ok tokens)
    (hs : s.Monotone) {block : Tree} (hmem : block ∈ (Token.parse tokens).root.descendants)
    (hblock : block.kind? = some .compound) {r : Routine}
    (hstatements : r.statements = s.statements block)
    (hstart : r.extent.start ≤ (s.extentOf block).start)
    (hstop : (s.extentOf block).stop ≤ r.extent.stop) :
    r.Nested := by
  -- What is below a node of the tree is in the tree, and the statements of its
  -- children are in order.
  have hinside {n : Tree} (hn : n ∈ (Token.parse tokens).root.descendants) :
      Statement.InOrder (s.extentOf n).start (s.extentOf n).stop (s.statementsIn n.children) := by
    refine statementsIn_inOrder hs n.children (fun m hm => ordered_of_mem hlex ?_)
      (ordered_of_mem hlex hn)
    rw [← Tree.descendants_eq] at hm
    rw [Tree.descendants_eq] at hn ⊢
    exact Tree.descendantsOf_trans hm _ hn
  constructor
  · intro st hst
    rw [hstatements] at hst
    obtain ⟨n, hn, hkind, hof⟩ := exists_node hmem hblock hst
    rw [(statement_of_node hkind hof).1]
    exact hs (ordered_of_mem hlex hn).le
  · rw [hstatements, statements_eq hblock]
    exact (hinside hmem).holds hstart hstop
  · intro st hst body hbody
    rw [hstatements] at hst
    obtain ⟨n, hn, hkind, hof⟩ := exists_node hmem hblock hst
    obtain ⟨hextent, hchildren⟩ := statement_of_node hkind hof
    rw [hchildren body hbody, hextent]
    exact (hinside hn).holds (Position.le_refl _) (Position.le_refl _)

end Source

/-- Without statements there is nothing to lie outside. -/
theorem Routine.nested_of_no_statements {r : Routine} (h : r.statements = []) : r.Nested where
  forward := by simp [h, visitAll]
  holds := ⟨by simp [h], by simp [h]⟩
  blocks := by simp [h, visitAll]

namespace Source

variable {s : Source}

theorem mem_of_child? {t n : Tree} {kind : NodeKind} (h : t.child? kind = some n) :
    n ∈ t.children ∧ n.kind? = some kind := by
  refine ⟨(List.mem_filter.1 (List.mem_of_find?_eq_some h)).1, ?_⟩
  simpa using List.find?_some h

/-- The extents of a **declared routine** nest. -/
theorem nested_of_routine? {src : Text} {tokens : List Token} (hlex : Token.lex src = .ok tokens)
    (hs : s.Monotone) {decl : Tree} (hdecl : decl ∈ (Token.parse tokens).root.descendants)
    {owner : Option Text} {r : Routine} (h : s.routine? decl = some (owner, r)) : r.Nested := by
  obtain ⟨heading, -, h⟩ := Option.bind_eq_some_iff.1 h
  dsimp only at h
  split at h
  · cases h
  split at h
  next block hchild =>
    obtain ⟨-, rfl⟩ := Prod.mk.inj (Option.some.inj h)
    obtain ⟨hchildren, hkind⟩ := mem_of_child? hchild
    have hblock : block ∈ (Token.parse tokens).root.descendants := by
      rw [Tree.descendants_eq] at hdecl ⊢
      refine Tree.descendantsOf_trans ?_ _ hdecl
      rw [Tree.descendants_eq]
      exact (View.mem_descendantsOf hchildren).1 (by rw [hkind]; rfl)
    obtain ⟨hstart, -, hstop⟩ := (ordered_of_mem hlex hdecl).mem block hchildren
    exact nested_of_block hlex hs hblock hkind rfl (hs hstart) (hs hstop)
  next =>
    -- Assembler code has no statements, and neither has a heading.
    refine Routine.nested_of_no_statements ?_
    split at h
    next => obtain ⟨-, rfl⟩ := Prod.mk.inj (Option.some.inj h); rfl
    next => obtain ⟨-, rfl⟩ := Prod.mk.inj (Option.some.inj h); rfl

end Source

/-! ## Routines that are attached -/

/-- A property of routines that depends on **the body, the statements and the extent** only. -/
def Routine.OfImplementation (P : Routine → Prop) : Prop :=
  ∀ {r r' : Routine}, r'.implementation = r.implementation → P r → P r'

/-- Extent and statements come from **one** implementation. -/
theorem Routine.nested_ofImplementation : Routine.OfImplementation Routine.Nested := by
  intro r r' h hr
  obtain ⟨-, hstatements, hextent⟩ : r'.body = r.body ∧ r'.statements = r.statements
      ∧ r'.extent = r.extent := by
    simpa [implementation] using h
  obtain ⟨hforward, hholds, hblocks⟩ := hr
  rw [← hstatements] at hforward hholds hblocks
  rw [← hextent] at hholds
  exact ⟨hforward, hholds, hblocks⟩

variable {P : Routine → Prop}

/-- A property of routines is kept when one enters a list, if it goes with the implementation. -/
theorem Routine.Enters.all (hP : OfImplementation P) {r : Routine} {slots slots' : List Routine}
    (h : r.Enters slots slots') (hslots : ∀ d ∈ slots, P d) (hr : P r) : ∀ d ∈ slots', P d := by
  cases h with
  | fills hbody hfirst hwaits hname hcompletes =>
    intro d hd
    rcases List.mem_append.1 hd with hd | hd
    · exact hslots d (List.mem_append_left _ hd)
    rcases List.mem_cons.1 hd with rfl | hd
    · exact hP hcompletes.implementation hr
    · exact hslots d (List.mem_append_right _ (List.mem_cons_of_mem _ hd))
  | appends hnone =>
    intro d hd
    rcases List.mem_append.1 hd with hd | hd
    · exact hslots d hd
    · exact List.mem_singleton.1 hd ▸ hr

namespace SourceUnit

/-- The routines of a unit are those at the top level and the methods. -/
theorem forall_routines_iff {u : SourceUnit} :
    (∀ e ∈ u.routines, P e.2) ↔ (∀ r ∈ u.procedures, P r) ∧ ∀ c ∈ u.classes,
      ∀ m ∈ c.methods, P m := by
  rw [routines, List.forall_mem_append, List.forall_mem_map, List.forall_mem_flatMap]
  simp only [List.forall_mem_map]

/-- What holds of **all routines** of a unit, and of one that is attached, holds
of all routines then. -/
theorem Attached.all_routines (hP : Routine.OfImplementation P) {u u' : SourceUnit}
    {owner : Option Text} {r : Routine} (h : u.Attached owner r u') (hu : ∀ e ∈ u.routines, P e.2)
    (hr : P r) : ∀ e ∈ u'.routines, P e.2 := by
  rw [forall_routines_iff] at hu ⊢
  obtain ⟨hprocedures, hmethods⟩ := hu
  cases h with
  | routine h => exact ⟨h.all hP hprocedures hr, hmethods⟩
  | @method owner r before after c methods hclasses hfirst howner h =>
    rw [hclasses, List.forall_mem_append, List.forall_mem_cons] at hmethods
    refine ⟨hprocedures, ?_⟩
    rw [List.forall_mem_append, List.forall_mem_cons]
    exact ⟨hmethods.1, h.all hP hmethods.2.1 hr, hmethods.2.2⟩
  | @foreign owner r hnone =>
    refine ⟨?_, hmethods⟩
    rw [List.forall_mem_append, List.forall_mem_singleton]
    exact ⟨hprocedures, hP (r := r) rfl hr⟩

/-- So it is kept by any number of implementations. -/
theorem all_routines_attachAll (hP : Routine.OfImplementation P) {u : SourceUnit}
    {calls : List (Option Text × Routine)} (hu : ∀ e ∈ u.routines, P e.2)
    (hcalls : ∀ call ∈ calls, P call.2) :
    ∀ e ∈ (u.attachAll calls).routines, P e.2 := by
  induction calls generalizing u with
  | nil => exact hu
  | cons call calls ih =>
    rw [List.forall_mem_cons] at hcalls
    exact ih ((attached_attach u call.1 call.2).all_routines hP hu hcalls.1) hcalls.2

/-- What holds of all **headings** and of all **declared routines** holds of all routines of
the unit of a tree. -/
theorem all_routines_ofTree (hP : Routine.OfImplementation P) {src : Text} {tree : SyntaxTree}
    (hheading : ∀ r : Routine, r.hasBody = false → r.statements = [] → P r)
    (hroutine : ∀ decl ∈ tree.root.descendants, ∀ call,
      (Source.ofText src).routine? decl = some call → P call.2) (fallback : Text) :
    ∀ e ∈ (ofTree src tree fallback).routines, P e.2 := by
  let calls := (declarations .routineDecl tree).filterMap (Source.ofText src).routine?
  have hcalls : ∀ call ∈ calls, P call.2 := by
    intro call hcall
    obtain ⟨decl, hdecl, hcall⟩ := List.mem_filterMap.1 hcall
    refine hroutine decl ?_ call hcall
    obtain ⟨hnode, -⟩ := List.mem_filter.1 hdecl
    obtain ⟨hchild, hkind⟩ := List.mem_filter.1 hnode
    rw [Tree.descendants_eq]
    exact (View.mem_descendantsOf hchild).1 hkind
  refine all_routines_attachAll hP
    (forall_routines_iff.2 ⟨fun r hr => (List.not_mem_nil hr).elim, ?_⟩) hcalls
  intro c hc m hm
  obtain ⟨decl, -, hclass⟩ := List.mem_filterMap.1 hc
  rw [Source.class?] at hclass
  split at hclass
  next =>
    obtain rfl := Option.some.inj hclass
    obtain ⟨heading, -, rfl⟩ := List.mem_map.1 hm
    exact hheading _ rfl rfl
  next => cases hclass

end SourceUnit

/-! ## The routines of a source text -/

namespace BuiltUnit

/-- **Extents nest.** In the unit of a source text that can be read as tokens and is not too long
for its lines to be counted, whatever the errors in it, no statement ends before it begins, the
statements of a routine lie inside the routine and those of a block inside the block, and each of
them lies behind the one before it. -/
theorem routines_nested {src : Text} {tokens : List Token} (h : Token.lex src = .ok tokens)
    (hsize : Text.size src < 2 ^ 32 - 1) (fallback : Text) :
    ∃ built, ofSource src fallback .tree = .ok built ∧ ∀ e ∈ built.unit.routines, e.2.Nested := by
  have hmono : (Source.ofText src).Monotone := fun hle => LineIndex.position_mono hsize hle
  refine ⟨_, ofSource_tree h fallback, ?_⟩
  refine SourceUnit.all_routines_ofTree Routine.nested_ofImplementation
    (fun r _ => Routine.nested_of_no_statements)
    (fun decl hdecl call hcall => ?_) fallback
  exact Source.nested_of_routine? h hmono hdecl hcall

/-- A class with a method, and the implementation of the method on four lines, with a
loop that breaks off. -/
def brokenMethod : Text :=
  "type C=class procedure P; end;procedure C.P;begin\nif a then\nb\nelse c;while end;".toList

/-- The method has the three statements that could be read, **and their extents nest**. -/
theorem routines_nested_broken :
    ∃ tokens built, Token.lex brokenMethod = .ok tokens ∧ Text.size brokenMethod < 2 ^ 32 - 1
      ∧ ofSource brokenMethod [] .tree = .ok built ∧ built.errors.length = 1
      ∧ (built.unit.classes.flatMap fun c => c.methods.map fun m => (visitAll m.statements).length)
        = [3]
      ∧ ∀ e ∈ built.unit.routines, e.2.Nested := by
  have hlex : Token.lex brokenMethod = .ok
      [⟨.keyword .kwType, 0, 4⟩, ⟨.ident ['C'], 5, 6⟩, ⟨.symbol .eq, 6, 7⟩,
        ⟨.keyword .kwClass, 7, 12⟩, ⟨.keyword .kwProcedure, 13, 22⟩, ⟨.ident ['P'], 23, 24⟩,
        ⟨.symbol .semi, 24, 25⟩, ⟨.keyword .kwEnd, 26, 29⟩, ⟨.symbol .semi, 29, 30⟩,
        ⟨.keyword .kwProcedure, 30, 39⟩, ⟨.ident ['C'], 40, 41⟩, ⟨.symbol .dot, 41, 42⟩,
        ⟨.ident ['P'], 42, 43⟩, ⟨.symbol .semi, 43, 44⟩, ⟨.keyword .kwBegin, 44, 49⟩,
        ⟨.keyword .kwIf, 50, 52⟩, ⟨.ident ['a'], 53, 54⟩, ⟨.keyword .kwThen, 55, 59⟩,
        ⟨.ident ['b'], 60, 61⟩, ⟨.keyword .kwElse, 62, 66⟩, ⟨.ident ['c'], 67, 68⟩,
        ⟨.symbol .semi, 68, 69⟩, ⟨.keyword .kwWhile, 69, 74⟩, ⟨.keyword .kwEnd, 75, 78⟩,
        ⟨.symbol .semi, 78, 79⟩, ⟨.eof, 79, 79⟩] := by with_unfolding_all rfl
  have hsize : Text.size brokenMethod < 2 ^ 32 - 1 := by decide +kernel
  obtain ⟨built, hbuilt, hnested⟩ := routines_nested hlex hsize []
  have hcounts : (ofSource brokenMethod [] .tree).toOption.map
      (fun built => (built.errors.length, built.unit.classes.flatMap fun c => c.methods.map
        fun m => (visitAll m.statements).length)) = some (1, [3]) := by
    decide +kernel
  rw [hbuilt] at hcounts
  obtain ⟨herrors, hstatements⟩ := Prod.mk.inj (Option.some.inj hcounts)
  exact ⟨_, built, hlex, hsize, hbuilt, herrors, hstatements, hnested⟩

end BuiltUnit

end PascalAtlas
