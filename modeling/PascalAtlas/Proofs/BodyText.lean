import PascalAtlas.Proofs.Excerpt
import PascalAtlas.Proofs.Nested
import PascalAtlas.Proofs.Told

/-!
# The text of a body

The body of a routine is cut from the source between the first token of its block and the closing
`end`. A block that is finished has both: one that breaks off before its `end` is dissolved into an
`error` node, and then the routine is none. So the cut is never made elsewhere, and what it gives is
an excerpt between two tokens, which has the tokens of the block as its own
(`Token.lex_trim_between`).

A declaration has **at most one** block (`Production.routine`): routines declared inside it are
nodes of their own, with their blocks in them.
-/

namespace PascalAtlas

open Computability

/-! ## The shape of a declaration -/

namespace Production

/-- Assembler code: tokens that are not looked into, between `asm` and `end`. -/
def code : Language Tree :=
  word .kwAsm * leaves * word .kwEnd

/-- What a declaration of a routine consists of. -/
def routine : Language Tree :=
  part .routineHeading
    * optional ((part .localDecls + part .routineDecl)∗
      * (optional (part .compound + part .simple) * optional (sign .semi)))

end Production

/-- What is asked of the two kinds of nodes that matter here: a simple statement that begins with
`asm` is assembler code, and a declaration of a routine is what it consists of. -/
def Bodied : NodeKind → List Tree → Prop
  | .simple, F =>
    ∀ t : Token, F.head? = some (.leaf t) → t.kind = .keyword .kwAsm → F ∈ Production.code
  | .routineDecl, F => F ∈ Production.routine
  | _, _ => True

namespace Step

/-- Whether a step itself, without the rules that it calls, finishes **no node** of some kinds. -/
def finishesNone (p : NodeKind → Bool) : Step → Bool
  | .seq a c => a.finishesNone p && c.finishesNone p
  | .branch _ yes no => yes.finishesNone p && no.finishesNone p
  | .loop _ body => body.finishesNone p
  | .ifMoved body moved still => body.finishesNone p && moved.finishesNone p && still.finishesNone p
  | .node kind body => !p kind && body.finishesNone p
  | .guarded _ body => body.finishesNone p
  | _ => true

/-- Where no node of some kinds is finished, a property of these kinds is kept. -/
theorem forms_of_finishesNone {grammar : Rule → Step} {fits : NodeKind → List Tree → Prop}
    {p : NodeKind → Bool} (hfits : ∀ kind F, p kind = false → fits kind F) {P : State → Prop}
    {a : Step} (h : a.finishesNone p = true) :
    a.Forms grammar fits P := by
  induction a generalizing P with
  | seq a c iha ihc =>
    rw [finishesNone, Bool.and_eq_true] at h
    exact ⟨iha h.1, ihc h.2⟩
  | branch test yes no ihyes ihno =>
    rw [finishesNone, Bool.and_eq_true] at h
    exact ⟨ihyes h.1, ihno h.2⟩
  | loop test body ih => exact ih h
  | ifMoved body moved still ihbody ihmoved ihstill =>
    rw [finishesNone, Bool.and_eq_true, Bool.and_eq_true] at h
    exact ⟨ihbody h.1.1, ihmoved h.1.2, ihstill h.2⟩
  | node kind body ih =>
    rw [finishesNone, Bool.and_eq_true, Bool.not_eq_true'] at h
    exact adds_top.forms_node (fun F _ => hfits kind F h.1) (ih h.2)
  | guarded recovery body ih => exact ih h
  | _ => trivial

end Step

namespace Grammar

open Step Production

variable {P : State → Prop}

/-- The kinds of nodes of which something is asked. -/
def isBodied (kind : NodeKind) : Bool :=
  kind == .simple || kind == .routineDecl

/-- Of most kinds nothing is asked. -/
theorem bodied_of_other (kind : NodeKind) (F : List Tree) (h : isBodied kind = false) :
    Bodied kind F := by
  cases kind with
  | simple => cases h
  | routineDecl => cases h
  | _ => trivial

/-- Where nodes of these kinds are not finished. -/
theorem bodied_of_none {a : Step} (h : a.finishesNone isBodied = true) : a.Forms rules Bodied P :=
  forms_of_finishesNone bodied_of_other h

theorem bodied_assembler (hP : ∀ s, P s → s.kind = .keyword .kwAsm) :
    assembler.Forms rules Bodied P := by
  refine Adds.forms_node ((adds_first hP).before ((adds_take _).before (adds_expectWord .kwEnd)))
    (fun F hF _ _ _ => ?_) (bodied_of_none rfl)
  rwa [code, mul_assoc]

/-- A statement finishes its blocks with a first token and an `end`. -/
theorem bodied_statement : statement.Forms rules Bodied P := by
  refine forms_choose ?_ ⟨trivial, ?_⟩
  · simp only [List.forall_mem_cons]
    exact ⟨bodied_of_none rfl, bodied_of_none rfl, bodied_of_none rfl, bodied_of_none rfl,
      bodied_of_none rfl, bodied_of_none rfl, bodied_of_none rfl, bodied_of_none rfl,
      bodied_assembler fun s hs => kind_of_keyword hs.2, trivial, by simp⟩
  · -- Any other statement begins with a token that is not `asm`.
    intro b s s' F hs _ _ hforest t hhead ht
    obtain ⟨G, rfl⟩ := List.head?_eq_some_iff.1 hhead
    have hrest : s.rest = t :: (Tree.leavesOf G ++ s'.rest) := hforest.leaves_append.symm
    have hkind : s.kind = .keyword .kwAsm := by rw [State.kind, hrest, headKind, ht]
    have hno : (Test.keyword .kwAsm).holds s = false := hs.2 (.keyword .kwAsm, assembler) (by simp)
    rw [Test.keyword, Test.holds, hkind] at hno
    cases hno

/-- Behind a heading come local declarations, then **at most one** block. -/
theorem adds_routineBody : Adds rules P routineBody ((part .localDecls + part .routineDecl)∗
    * (optional (part .compound + part .simple) * optional (sign .semi))) := by
  have hlocal {Q : State → Prop} : Adds rules Q (.branch sectionWord localDecls (.call .routine))
      (part .localDecls + part .routineDecl) :=
    .branch ((adds_node _).le le_self_add) ((adds_call (adds_node _)).le le_add_self)
  have hblock {Q : State → Prop} :
      Adds rules Q (choose [(.keyword .kwBegin, compound), (.keyword .kwAsm, assembler)] .skip)
        (optional (part .compound + part .simple)) := by
    refine adds_choose ?_ (adds_skip.le le_self_add)
    simp only [List.forall_mem_cons]
    exact ⟨(adds_node _).le (le_trans le_self_add le_add_self),
      (adds_node _).le (le_trans le_add_self le_add_self), by simp⟩
  exact hlocal.loop.before (hblock.before adds_optionalSemi)

/-- A routine finishes its own block, and those inside it, in this way. -/
theorem bodied_routine : (rules .routine).Forms rules Bodied P := by
  refine Adds.forms_node ((adds_node _).before (.when adds_routineBody)) (fun F hF => hF) ?_
  refine ⟨bodied_of_none rfl, ⟨bodied_of_none rfl, ?_, bodied_of_none rfl⟩, trivial⟩
  exact ⟨bodied_of_none rfl, bodied_assembler fun s hs => kind_of_keyword hs.2, trivial⟩

end Grammar

/-- **Every node below the root** of the tree of some tokens is what is asked of its kind. -/
theorem bodied_of_mem {tokens : List Token} {n : Tree}
    (hn : n ∈ (Token.parse tokens).root.descendants) :
    ∃ kind, n.kind? = some kind ∧ Bodied kind n.children := by
  refine fits_of_mem_descendants Bodied (fun _ => trivial) (fun rule => ?_)
    (Grammar.bodied_of_none rfl) hn
  cases rule with
  | statement => exact Grammar.bodied_statement
  | routine => exact Grammar.bodied_routine

/-! ## The one block of a declaration -/

namespace Tree

/-- Whether a tree is a node that can be the block of a routine. -/
def isBlock (t : Tree) : Bool :=
  t.kind? == some .compound || t.kind? == some .simple

/-- The **blocks** among the children of a node. -/
def blocks (t : Tree) : List Tree :=
  t.children.filter isBlock

end Tree

namespace Production

theorem filter_isBlock_of_within {F : List Tree}
    (hF : F ∈ within fun kind => kind ≠ .compound ∧ kind ≠ .simple) :
    F.filter Tree.isBlock = [] := by
  refine List.filter_eq_nil_iff.2 fun t ht hblock => ?_
  rw [Tree.isBlock, Bool.or_eq_true, beq_iff_eq, beq_iff_eq] at hblock
  rcases hblock with hkind | hkind
  · exact (hF t ht _ hkind).1 rfl
  · exact (hF t ht _ hkind).2 rfl

/-- A declaration has **at most one block**. -/
theorem length_filter_isBlock {F : List Tree} (hF : F ∈ routine) :
    (F.filter Tree.isBlock).length ≤ 1 := by
  have hpart {kind : NodeKind} (hkind : kind ≠ .compound ∧ kind ≠ .simple) :
      part kind ≤ within fun kind => kind ≠ .compound ∧ kind ≠ .simple :=
    partOf_within (by rintro _ rfl; exact hkind)
  obtain ⟨heading, hheading, G, hG, rfl⟩ := Language.mem_mul.1 hF
  rw [List.filter_append, filter_isBlock_of_within (hpart (by decide) hheading), List.nil_append]
  rcases hG with hG | hG
  · rw [(Language.mem_one G).1 hG]
    exact Nat.zero_le 1
  obtain ⟨locals, hlocals, rest, hrest, rfl⟩ := Language.mem_mul.1 hG
  obtain ⟨block, hblock, semi, hsemi, rfl⟩ := Language.mem_mul.1 hrest
  have hwithin := kstar_within (add_within (hpart (by decide)) (hpart (by decide))) hlocals
  rw [List.filter_append, List.filter_append, filter_isBlock_of_within hwithin, List.nil_append,
    filter_isBlock_of_within (optional_within (leaf_within _) hsemi), List.append_nil]
  refine Nat.le_trans (List.length_filter_le _ _) ?_
  rcases hblock with hblock | ⟨n, -, -, -, rfl⟩ | ⟨n, -, -, -, rfl⟩
  · rw [(Language.mem_one block).1 hblock]
    exact Nat.zero_le 1
  · exact Nat.le_refl 1
  · exact Nat.le_refl 1

end Production

/-! ## The tokens of a block -/

namespace Tree

/-- The tokens of a node stand together among those of the trees around it. -/
theorem leaves_isInfix_leavesOf {n : Tree} :
    (ts : List Tree) → n ∈ descendantsOf ts → n.leaves <:+: leavesOf ts
  | [], h => by
    rw [descendantsOf] at h
    cases h
  | .leaf token :: ts, h => by
    rw [descendantsOf] at h
    exact (leaves_isInfix_leavesOf ts h).trans (List.suffix_append _ _).isInfix
  | .node kind start stop children :: ts, h => by
    rw [descendantsOf, List.mem_cons, List.mem_append] at h
    rw [leavesOf]
    rcases h with rfl | h | h
    · exact (List.prefix_append _ _).isInfix
    · exact (leaves_isInfix_leavesOf children h).trans (List.prefix_append _ _).isInfix
    · exact (leaves_isInfix_leavesOf ts h).trans (List.suffix_append _ _).isInfix

/-- The tokens below a node stand **next to each other** among those of the tree. -/
theorem leaves_isInfix {n t : Tree} (h : n ∈ t.descendants) : n.leaves <:+: t.leaves := by
  cases t with
  | leaf token =>
    rw [descendants] at h
    cases h
  | node kind start stop children => exact leaves_isInfix_leavesOf children h

/-- A block that is **opened and closed** by two of its own tokens, and what is between them. -/
structure Closed (block : Tree) (opening : Token) (inner : List Token) (closing : Token) :
    Prop where
  first : block.firstToken? = some opening
  last : block.lastToken? = some closing
  leaves : block.leaves = opening :: (inner ++ [closing])
  opens : block.kind? = some .compound ∧ opening.kind = .keyword .kwBegin
    ∨ block.kind? = some .simple ∧ opening.kind = .keyword .kwAsm
  closes : closing.kind = .keyword .kwEnd

/-- A node whose children begin and end with a leaf begins and ends with it. -/
theorem ends_of_children {n : Tree} {b e : Token} {F : List Tree}
    (h : n.children = .leaf b :: (F ++ [.leaf e])) :
    n.firstToken? = some b ∧ n.lastToken? = some e ∧ n.leaves = b :: (leavesOf F ++ [e]) := by
  cases n with
  | leaf token => cases h
  | node kind start stop children =>
    obtain rfl : children = leaf b :: (F ++ [leaf e]) := h
    refine ⟨?_, ?_, ?_⟩
    · rw [firstToken?, firstTokenOf?, firstToken?]
    · rw [lastToken?, ← List.cons_append, lastTokenOf?_concat, lastToken?]
    · rw [leaves, leavesOf, leavesOf_append]
      rfl

/-- A block that is made of its first word, something, and `end` is closed. -/
theorem closed_of_children {block : Tree} {k : Keyword} {L : Language Tree}
    (h : block.children ∈ Production.word k * L * Production.word .kwEnd)
    (hopens : block.kind? = some .compound ∧ k = .kwBegin
      ∨ block.kind? = some .simple ∧ k = .kwAsm) :
    ∃ opening inner closing, block.Closed opening inner closing := by
  obtain ⟨_, ⟨_, ⟨b, hb, rfl⟩, F, -, rfl⟩, _, ⟨e, he, rfl⟩, hparts⟩ := h
  have hchildren : block.children = .leaf b :: (F ++ [.leaf e]) := by rw [← hparts]; rfl
  obtain ⟨hfirst, hlast, hleaves⟩ := ends_of_children hchildren
  refine ⟨b, _, e, hfirst, hlast, hleaves, ?_, he⟩
  rcases hopens with ⟨hkind, rfl⟩ | ⟨hkind, rfl⟩
  · exact .inl ⟨hkind, hb⟩
  · exact .inr ⟨hkind, hb⟩

end Tree

/-- A compound statement that is finished has its `begin` and its `end`. -/
theorem closed_of_compound {tokens : List Token} {block : Tree}
    (hblock : block ∈ (Token.parse tokens).root.descendants)
    (hkind : block.kind? = some .compound) :
    ∃ opening inner closing, block.Closed opening inner closing := by
  obtain ⟨kind, hkind', hcomplete⟩ :=
    fits_of_mem_descendants Complete (fun _ => trivial) Grammar.complete_rules
    Grammar.complete_unit hblock
  obtain rfl : NodeKind.compound = kind := Option.some.inj (hkind.symm.trans hkind')
  exact Tree.closed_of_children hcomplete (.inl ⟨hkind, rfl⟩)

/-- Assembler code that is finished has its `asm` and its `end`. -/
theorem closed_of_assembler {tokens : List Token} {block : Tree}
    (hblock : block ∈ (Token.parse tokens).root.descendants) (hkind : block.kind? = some .simple)
    (hasm : Source.isAssembler block = true) :
    ∃ opening inner closing, block.Closed opening inner closing := by
  obtain ⟨kind, hkind', hbodied⟩ := bodied_of_mem hblock
  obtain rfl : NodeKind.simple = kind := Option.some.inj (hkind.symm.trans hkind')
  have hleaves := mem_leaves_of_simple hblock hkind
  -- All children are leaves, so the first token is the first child.
  obtain ⟨t, hhead, ht⟩ : ∃ t, block.children.head? = some (.leaf t)
      ∧ t.kind = .keyword .kwAsm := by
    cases block with
    | leaf token => cases hkind
    | node kind start stop children =>
      cases children with
      | nil => simp [Source.isAssembler, Tree.firstToken?, Tree.firstTokenOf?] at hasm
      | cons first children =>
        cases first with
        | leaf t =>
          refine ⟨t, rfl, ?_⟩
          simpa [Source.isAssembler, Tree.firstToken?, Tree.firstTokenOf?] using hasm
        | node inner _ _ _ =>
          have hnone := Production.kstar_within (p := fun _ => False)
            (Production.leaf_within _) hleaves
          exact (hnone _ List.mem_cons_self inner rfl).elim
  exact Tree.closed_of_children (hbodied t hhead ht) (.inr ⟨hkind, rfl⟩)

/-! ## The text between them -/

/-- A text is **the body of a block** of a source. It is what stands between the token that opens
the block and the `end` that closes it, without the blanks at its ends; and read by itself it has
the tokens of the block between these two, each of them moved by the number of bytes that stand
before the text in the source. -/
def Tree.IsBody (src : Text) (block : Tree) (body : Text) : Prop :=
  ∃ opening inner closing, block.Closed opening inner closing
    ∧ (∃ middle, Text.slice? src opening.stop closing.start = some middle ∧ body = Text.trim middle)
    ∧ ∃ own n, Text.slice? src n (n + Text.size body) = some body
      ∧ Token.lex body = .ok (own ++ [⟨.eof, Text.size body, Text.size body⟩])
      ∧ inner = own.map (Token.shift n)

/-- What is cut from a closed block **is its body**. -/
theorem isBody_innerText {src : Text} {tokens : List Token} (hlex : Token.lex src = .ok tokens)
    {block : Tree} (hblock : block ∈ (Token.parse tokens).root.descendants)
    {opening closing : Token} {inner : List Token} (hclosed : block.Closed opening inner closing)
    {s : Source} (hs : s.text = src) :
    block.IsBody src (Text.trim (s.innerText block)) := by
  have hrest := (leaves_append_rest tokens).1
  obtain ⟨before, after, hplace⟩ := Tree.leaves_isInfix hblock
  rw [hclosed.leaves] at hplace
  have htokens : before
      ++ opening :: (inner ++ closing :: (after ++ (Token.parseState tokens).rest)) = tokens := by
    calc before ++ opening :: (inner ++ closing :: (after ++ (Token.parseState tokens).rest))
        = before ++ opening :: (inner ++ [closing]) ++ after ++ (Token.parseState tokens).rest := by
          simp
      _ = tokens := by rw [hplace, hrest]
  have hopening : opening.kind ≠ .eof := by
    rcases hclosed.opens with ⟨-, hkind⟩ | ⟨-, hkind⟩
    · rw [hkind]; exact TokenKind.noConfusion
    · rw [hkind]; exact TokenKind.noConfusion
  rw [← htokens] at hlex
  obtain ⟨hle, middle, own, n, hslice, hstands, hown, hinner⟩ :=
    Token.lex_trim_between hlex hopening
  have htext : s.innerText block = middle := by
    rw [Source.innerText, hclosed.first, hclosed.last, hs]
    simp only [Option.map_some, Option.getD_some, Option.filter_some, hclosed.closes,
      beq_self_eq_true, if_true, Nat.max_eq_left hle, hslice]
  rw [htext]
  exact ⟨opening, inner, closing, hclosed, ⟨middle, hslice, rfl⟩, own, n, hstands, hown, hinner⟩

/-! ## Routines -/

namespace Source

variable {s : Source}

/-- A declared routine that has a body has **the block of its declaration**. -/
theorem exists_block_of_routine? {src : Text} {tokens : List Token}
    (hlex : Token.lex src = .ok tokens) (hs : s.text = src) {decl : Tree}
    (hdecl : decl ∈ (Token.parse tokens).root.descendants)
    (hkind : decl.kind? = some .routineDecl) {owner : Option Text} {r : Routine}
    (h : s.routine? decl = some (owner, r)) (hbody : r.hasBody = true) :
    r.extent = s.extentOf decl ∧ ∃ block, decl.blocks = [block] ∧ block.IsBody src r.body := by
  -- A block among the children is the only one, and it is a node of the tree.
  have honly {block : Tree} (hmem : block ∈ decl.children) (hisBlock : block.isBlock = true) :
      decl.blocks = [block] := by
    obtain ⟨kind, hkind', hbodied⟩ := bodied_of_mem hdecl
    obtain rfl : NodeKind.routineDecl = kind := Option.some.inj (hkind.symm.trans hkind')
    have hlength : decl.blocks.length ≤ 1 := Production.length_filter_isBlock hbodied
    have hfound : block ∈ decl.blocks := List.mem_filter.2 ⟨hmem, hisBlock⟩
    generalize decl.blocks = found at hlength hfound
    cases found with
    | nil => cases hfound
    | cons first found =>
      obtain rfl : found = [] :=
        List.eq_nil_of_length_eq_zero (Nat.le_zero.1 (Nat.le_of_succ_le_succ hlength))
      rw [List.mem_singleton.1 hfound]
  have hnode {block : Tree} {kind : NodeKind} (hchild : decl.child? kind = some block) :
      block ∈ (Token.parse tokens).root.descendants := by
    obtain ⟨hmem, hkind⟩ := mem_of_child? hchild
    rw [Tree.descendants_eq] at hdecl ⊢
    refine Tree.descendantsOf_trans ?_ _ hdecl
    rw [Tree.descendants_eq]
    exact (View.mem_descendantsOf hmem).1 (by rw [hkind]; rfl)
  obtain ⟨heading, -, h⟩ := Option.bind_eq_some_iff.1 h
  dsimp only at h
  split at h
  · cases h
  split at h
  next block hchild =>
    obtain ⟨-, rfl⟩ := Prod.mk.inj (Option.some.inj h)
    obtain ⟨hmem, hcompound⟩ := mem_of_child? hchild
    obtain ⟨opening, inner, closing, hclosed⟩ := closed_of_compound (hnode hchild) hcompound
    refine ⟨rfl, block, honly hmem (by rw [Tree.isBlock, hcompound]; rfl), ?_⟩
    exact isBody_innerText hlex (hnode hchild) hclosed hs
  next =>
    split at h
    next block hfilter =>
      obtain ⟨-, rfl⟩ := Prod.mk.inj (Option.some.inj h)
      obtain ⟨hchild, hasm⟩ := Option.filter_eq_some_iff.1 hfilter
      obtain ⟨hmem, hsimple⟩ := mem_of_child? hchild
      obtain ⟨opening, inner, closing, hclosed⟩ := closed_of_assembler (hnode hchild) hsimple hasm
      refine ⟨rfl, block, honly hmem (by rw [Tree.isBlock, hsimple]; rfl), ?_⟩
      exact isBody_innerText hlex (hnode hchild) hclosed hs
    next =>
      -- A heading has no body.
      obtain ⟨-, rfl⟩ := Prod.mk.inj (Option.some.inj h)
      cases hbody

end Source

namespace SourceUnit

/-- Every body of a unit **comes from a declaration**. -/
theorem exists_declaration {src : Text} {tree : SyntaxTree} {fallback : Text}
    {e : Option ClassDecl × Routine} (he : e ∈ (ofTree src tree fallback).routines)
    (hbody : e.2.hasBody = true) :
    ∃ decl ∈ declarations .routineDecl tree, ∃ owner r, (Source.ofText src).routine? decl
      = some (owner, r)
      ∧ r.hasBody = true ∧ e.2.implementation = r.implementation := by
  let declared : SourceUnit :=
    { name := nameIn tree fallback
      uses := (declarations .usesClause tree).flatMap Source.usedUnits
      classes := (declarations .typeDecl tree).filterMap (Source.ofText src).class? }
  let calls := (declarations .routineDecl tree).filterMap (Source.ofText src).routine?
  have hmem : e.2.implementation ∈ (declared.attachAll calls).implementations :=
    List.mem_map_of_mem (List.mem_filter.2 ⟨List.mem_map_of_mem he, hbody⟩)
  -- The classes come with headings only.
  have hnone : declared.implementations = [] := by
    rw [implementations_eq]
    refine List.map_eq_nil_iff.2 (List.filter_eq_nil_iff.2 fun m hm => ?_)
    obtain ⟨c, hc, hm⟩ := List.mem_flatMap.1 hm
    obtain ⟨decl, -, hclass⟩ := List.mem_filterMap.1 hc
    rw [Source.class?] at hclass
    split at hclass
    next =>
      obtain rfl := Option.some.inj hclass
      obtain ⟨heading, -, rfl⟩ := List.mem_map.1 hm
      exact Bool.false_ne_true
    next => cases hclass
  rw [(implementations_attachAll declared calls).mem_iff, hnone, List.nil_append] at hmem
  obtain ⟨r, hfilter, himplementation⟩ := List.mem_map.1 hmem
  obtain ⟨hr, hrbody⟩ := List.mem_filter.1 hfilter
  obtain ⟨⟨owner, r⟩, hcall, rfl⟩ := List.mem_map.1 hr
  obtain ⟨decl, hdecl, hroutine⟩ := List.mem_filterMap.1 hcall
  exact ⟨decl, hdecl, owner, r, hroutine, hrbody, himplementation.symm⟩

end SourceUnit

namespace BuiltUnit

/-- **Bodies are faithful.** A source text that can be read as tokens has a unit, whatever the
errors in it, and of each routine in it that has a body there is a declaration directly under the
root of the tree, with the extent of the routine and one block. The body is what stands in the
source between the `begin` of this block, or its `asm`, and the closing `end`, trimmed; and it is
read by itself as the tokens of the block without these two. -/
theorem bodies_faithful {src : Text} {tokens : List Token} (h : Token.lex src = .ok tokens)
    (fallback : Text) :
    ∃ tree built, SyntaxTree.ofText src = .ok tree ∧ ofSource src fallback .tree = .ok built
      ∧ ∀ e ∈ built.unit.routines, e.2.hasBody = true →
        ∃ decl block, decl ∈ tree.root.children ∧ decl.kind? = some .routineDecl
          ∧ e.2.extent = (Source.ofText src).extentOf decl ∧ decl.blocks = [block]
          ∧ block.IsBody src e.2.body := by
  refine ⟨_, _, ofText_eq h, ofSource_tree h fallback, fun e he hbody => ?_⟩
  obtain ⟨decl, hdecl, owner, r, hroutine, hr, himplementation⟩ :=
    SourceUnit.exists_declaration he hbody
  obtain ⟨hnode, hkind⟩ := List.mem_filter.1 hdecl
  obtain ⟨hchild, hsome⟩ := List.mem_filter.1 hnode
  have hmem : decl ∈ (Token.parse tokens).root.descendants := by
    rw [Tree.descendants_eq]
    exact (View.mem_descendantsOf hchild).1 hsome
  have hkind : decl.kind? = some .routineDecl := beq_iff_eq.1 hkind
  obtain ⟨hextent, block, hblocks, hisBody⟩ :=
    Source.exists_block_of_routine? h rfl hmem hkind hroutine hr
  obtain ⟨hbody', -, hextent'⟩ : e.2.body = r.body ∧ e.2.statements = r.statements
      ∧ e.2.extent = r.extent := by
    simpa [Routine.implementation] using himplementation
  exact ⟨decl, block, hchild, hkind, hextent'.trans hextent, hblocks, hbody' ▸ hisBody⟩

/-- A routine with another one inside, whose block begins and ends with a comment, the last of them
with a blank at its end that is no space, and a routine in assembler code. -/
def blankEnds : Text :=
  ("procedure P;procedure N;begin b end;begin\x7bé\x7da:='\u00a0'//é\u00a0\n end;"
    ++ "procedure Q;asm m//\u00a0\nend;").toList

/-- The two comments stay and the blank goes, **and so the bodies are faithful**. -/
theorem bodies_faithful_blanks :
    ∃ tokens tree built, Token.lex blankEnds = .ok tokens ∧ SyntaxTree.ofText blankEnds = .ok tree
      ∧ ofSource blankEnds [] .tree = .ok built
      ∧ (built.unit.routines.map fun e => (e.2.hasBody, e.2.body))
        = [(true, "\x7bé\x7da:='\u00a0'//é".toList), (true, "m//".toList)]
      ∧ ∀ e ∈ built.unit.routines, e.2.hasBody = true →
        ∃ decl block, decl ∈ tree.root.children ∧ decl.kind? = some .routineDecl
          ∧ e.2.extent = (Source.ofText blankEnds).extentOf decl ∧ decl.blocks = [block]
          ∧ block.IsBody blankEnds e.2.body := by
  have hread : (Token.lex blankEnds).toOption.isSome = true := by decide +kernel
  obtain ⟨tokens, hlex⟩ : ∃ tokens, Token.lex blankEnds = .ok tokens := by
    cases hlex : Token.lex blankEnds with
    | error e =>
      rw [hlex] at hread
      cases hread
    | ok tokens => exact ⟨tokens, rfl⟩
  obtain ⟨tree, built, htree, hbuilt, hfaithful⟩ := bodies_faithful hlex []
  have hbodies : (ofSource blankEnds [] .tree).toOption.map (fun built =>
      built.unit.routines.map fun e => (e.2.hasBody, e.2.body))
        = some [(true, "\x7bé\x7da:='\u00a0'//é".toList), (true, "m//".toList)] := by decide +kernel
  rw [hbuilt] at hbodies
  exact ⟨tokens, tree, built, hlex, htree, hbuilt, Option.some.inj hbodies, hfaithful⟩

end BuiltUnit

end PascalAtlas
