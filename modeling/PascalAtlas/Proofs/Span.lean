import PascalAtlas.Proofs.Filled
import PascalAtlas.Proofs.Lossless

/-!
# Spans of nodes

A node covers the bytes from the start of its first child to the end of its last one, and these
bytes say exactly which tokens belong to it: its leaves, and no others of the stream, lie between
them. This is what allows the text of a node to be cut out of the source.

The danger is in the nodes without children. Such a node stands at the start of the token that came
next, so a node that ends with one reaches over the blanks and comments in front of that token. It
does not reach over the token, because tokens are not empty. The whole argument is an induction on
forests: the trees of a forest follow one another between the first token they were built over and
the first one that was left (`Forest.spanned`).
-/

namespace PascalAtlas

/-! ## Trees one after the other -/

/-- Trees lie **one after the other** between two offsets. -/
def InOrder (lo hi : Nat) : List Tree → Prop
  | [] => lo ≤ hi
  | t :: ts => lo ≤ t.start ∧ t.start ≤ t.stop ∧ InOrder t.stop hi ts

namespace InOrder

variable {lo mid hi : Nat} {F G : List Tree}

/-- Trees in order do not end before they begin. -/
theorem le (h : InOrder lo hi F) : lo ≤ hi := by
  induction F generalizing lo with
  | nil => exact h
  | cons t ts ih =>
    have hts := ih h.2.2
    have hlo := h.1
    have ht := h.2.1
    omega

/-- Trees in order may begin later than they must. -/
theorem mono_left (h : InOrder mid hi F) (hle : lo ≤ mid) : InOrder lo hi F := by
  cases F with
  | nil =>
    have hmid : mid ≤ hi := h
    show lo ≤ hi
    omega
  | cons t ts =>
    have hmid := h.1
    exact ⟨by omega, h.2⟩

/-- Trees in order, and others behind them, are in order together. -/
theorem append (hF : InOrder lo mid F) (hG : InOrder mid hi G) : InOrder lo hi (F ++ G) := by
  induction F generalizing lo with
  | nil => exact hG.mono_left hF
  | cons t ts ih => exact ⟨hF.1, hF.2.1, ih hF.2.2⟩

/-- Every tree lies between the two offsets. -/
theorem mem (h : InOrder lo hi F) : ∀ t ∈ F, lo ≤ t.start ∧ t.start ≤ t.stop ∧ t.stop ≤ hi := by
  induction F generalizing lo with
  | nil => simp
  | cons t ts ih =>
    intro u hu
    have hts := h.2.2.le
    rcases List.mem_cons.1 hu with rfl | hu
    · exact ⟨h.1, h.2.1, hts⟩
    · have hu' := ih h.2.2 u hu
      have hlo := h.1
      have ht := h.2.1
      omega

/-- Every tree ends before any later one starts. -/
theorem pairwise (h : InOrder lo hi F) : F.Pairwise fun c d => c.stop ≤ d.start := by
  induction F generalizing lo with
  | nil => exact .nil
  | cons t ts ih => exact .cons (fun u hu => (h.2.2.mem u hu).1) (ih h.2.2)

/-- The first tree starts first. -/
theorem head_le (h : InOrder lo hi F) {first : Tree} (hfirst : F.head? = some first) :
    ∀ t ∈ F, first.start ≤ t.start := by
  cases F with
  | nil => simp
  | cons u us =>
    obtain rfl := Option.some.inj hfirst
    intro t ht
    rcases List.mem_cons.1 ht with rfl | ht
    · exact Nat.le_refl _
    · have hu := h.2.1
      have ht' := (h.2.2.mem t ht).1
      omega

/-- The last tree ends last. -/
theorem le_last (h : InOrder lo hi F) {last : Tree} (hlast : F.getLast? = some last) :
    ∀ t ∈ F, t.stop ≤ last.stop := by
  induction F generalizing lo with
  | nil => simp
  | cons u us ih =>
    intro t ht
    cases us with
    | nil =>
      obtain rfl : u = last := by simpa using hlast
      obtain rfl := List.mem_singleton.1 ht
      exact Nat.le_refl _
    | cons v vs =>
      rw [List.getLast?_cons_cons] at hlast
      have htail := ih h.2.2 hlast
      rcases List.mem_cons.1 ht with rfl | ht
      · have hv := h.2.2.1
        have hv' := h.2.2.2.1
        have hvlast := htail v (List.mem_cons_self ..)
        omega
      · exact htail t ht

end InOrder

namespace Tree

/-- Trees in order are covered from the start of the first one to the end of the last one. -/
theorem span_ofChildren (kind : NodeKind) (offset : Nat) {lo hi : Nat} {F : List Tree}
    {first last : Tree} (h : InOrder lo hi F) (hfirst : F.head? = some first)
    (hlast : F.getLast? = some last) :
    (ofChildren kind F offset).start = first.start
      ∧ (ofChildren kind F offset).stop = last.stop := by
  have hmem : first ∈ F := List.mem_of_mem_head? hfirst
  have hle : first.start ≤ last.stop :=
    Nat.le_trans (h.mem first hmem).2.1 (h.le_last hlast first hmem)
  rw [ofChildren, hfirst, hlast]
  simp only [if_pos hle]
  exact ⟨rfl, rfl⟩

/-- A list of trees that has one has a first and a last one. -/
theorem exists_first_last {F : List Tree} (hF : F ≠ []) :
    ∃ first last, F.head? = some first ∧ F.getLast? = some last := by
  have hhead : F.head?.isSome = true := by simpa using hF
  have hlast : F.getLast?.isSome = true := by simpa using hF
  obtain ⟨first, hfirst⟩ := Option.isSome_iff_exists.1 hhead
  obtain ⟨last, hlast⟩ := Option.isSome_iff_exists.1 hlast
  exact ⟨first, last, hfirst, hlast⟩

/-- A leaf of some trees is one of theirs. -/
theorem mem_leavesOf {l : Token} {F : List Tree} : l ∈ leavesOf F ↔ ∃ t ∈ F, l ∈ t.leaves := by
  induction F with
  | nil => simp [leavesOf]
  | cons t ts ih => simp [leavesOf, ih]

@[simp] theorem descendantsOf_append (F G : List Tree) :
    descendantsOf (F ++ G) = descendantsOf F ++ descendantsOf G := by
  induction F with
  | nil => rw [List.nil_append, descendantsOf, List.nil_append]
  | cons t ts ih =>
    cases t with
    | leaf token => rw [List.cons_append, descendantsOf, descendantsOf, ih]
    | node kind start stop children =>
      rw [List.cons_append, descendantsOf, descendantsOf, ih, List.cons_append, List.append_assoc]

/-- Below and including a new node there are the node itself and what is below it. -/
theorem descendantsOf_ofChildren (kind : NodeKind) (F : List Tree) (offset : Nat) :
    descendantsOf [ofChildren kind F offset] = ofChildren kind F offset :: descendantsOf F := by
  unfold ofChildren
  repeat' split
  all_goals rw [descendantsOf, descendantsOf, List.append_nil]

theorem descendants_ofChildren (kind : NodeKind) (F : List Tree) (offset : Nat) :
    (ofChildren kind F offset).descendants = descendantsOf F := by
  unfold ofChildren
  repeat' split
  all_goals rfl

end Tree

/-! ## The offsets of a forest -/

/-- Trees that follow one another between two offsets, that begin and end at cuts of the text, and
that cover their leaves. -/
structure Spanned (src : Text) (lo hi : Nat) (F : List Tree) : Prop where
  inOrder : InOrder lo hi F
  cuts : ∀ t ∈ F, Text.IsCut src t.start ∧ Text.IsCut src t.stop
  covers : ∀ t ∈ F, ∀ l ∈ t.leaves, t.start ≤ l.start ∧ l.stop ≤ t.stop

namespace Spanned

variable {src : Text} {lo mid hi offset : Nat} {F G : List Tree} {kind : NodeKind}

/-- What is spanned up to a place, and from there, is spanned together. -/
theorem append (hF : Spanned src lo mid F) (hG : Spanned src mid hi G) :
    Spanned src lo hi (F ++ G) := by
  refine ⟨hF.inOrder.append hG.inOrder, fun t ht => ?_, fun t ht => ?_⟩
  · rcases List.mem_append.1 ht with h | h
    · exact hF.cuts t h
    · exact hG.cuts t h
  · rcases List.mem_append.1 ht with h | h
    · exact hF.covers t h
    · exact hG.covers t h

/-- Where a node stands, if its children are spanned and it was finished before byte `hi`. -/
theorem node_span (kind : NodeKind) (h : Spanned src lo hi F) (hhi : Text.IsCut src hi) :
    lo ≤ (Tree.ofChildren kind F hi).start ∧
      (Tree.ofChildren kind F hi).start ≤ (Tree.ofChildren kind F hi).stop ∧
      (Tree.ofChildren kind F hi).stop ≤ hi ∧
      Text.IsCut src (Tree.ofChildren kind F hi).start ∧
      Text.IsCut src (Tree.ofChildren kind F hi).stop := by
  by_cases hF : F = []
  · -- Without children, the node is empty and stands at `hi`.
    subst hF
    exact ⟨h.inOrder, Nat.le_refl _, Nat.le_refl _, hhi, hhi⟩
  · obtain ⟨first, last, hfirst, hlast⟩ := Tree.exists_first_last hF
    have hmem : first ∈ F := List.mem_of_mem_head? hfirst
    have hmem' : last ∈ F := List.mem_of_getLast? hlast
    obtain ⟨hstart, hstop⟩ := Tree.span_ofChildren kind hi h.inOrder hfirst hlast
    rw [hstart, hstop]
    have hf := h.inOrder.mem first hmem
    have hl := h.inOrder.mem last hmem'
    have hfl := h.inOrder.le_last hlast first hmem
    exact ⟨hf.1, by omega, hl.2.2, (h.cuts first hmem).1, (h.cuts last hmem').2⟩

/-- A node covers the leaves of its children. -/
theorem node_covers (h : Spanned src lo hi F) :
    ∀ l ∈ Tree.leavesOf F, (Tree.ofChildren kind F offset).start ≤ l.start ∧
      l.stop ≤ (Tree.ofChildren kind F offset).stop := by
  intro l hl
  obtain ⟨t, ht, hlt⟩ := Tree.mem_leavesOf.1 hl
  obtain ⟨first, last, hfirst, hlast⟩ := Tree.exists_first_last (List.ne_nil_of_mem ht)
  obtain ⟨hstart, hstop⟩ := Tree.span_ofChildren kind offset h.inOrder hfirst hlast
  have hcover := h.covers t ht l hlt
  have hhead := h.inOrder.head_le hfirst t ht
  have htail := h.inOrder.le_last hlast t ht
  rw [hstart, hstop]
  omega

end Spanned

/-- The first token of a stream starts at a cut. -/
theorem isCut_startOf {src : Text} {pos last : Nat} {r : List Token} (h : Token.Stream src pos r) :
    Text.IsCut src (startOf last r) ∧ pos ≤ startOf last r := by
  obtain ⟨t, ts, rfl, hpos, hcut⟩ := h.eq_cons
  exact ⟨hcut, hpos⟩

/-- **A forest is spanned** between the first token it was built over and the
first one that was left. -/
theorem Forest.spanned {fits : NodeKind → List Tree → Prop} {src : Text} {last : Nat}
    {r r' : List Token} {F : List Tree} (h : Forest fits last r F r') :
    ∀ pos, Token.Stream src pos r → (∃ pos', Token.Stream src pos' r') ∧
      Spanned src (startOf last r) (startOf last r') F := by
  induction h with
  | nil =>
    intro pos hr
    exact ⟨⟨pos, hr⟩, Nat.le_refl _, by simp, by simp⟩
  | @leaf t r ht =>
    intro pos hr
    cases hr with
    | eof => exact absurd rfl ht
    | token hpos hlt hstart hstop _ hr =>
      refine ⟨⟨_, hr⟩, ⟨Nat.le_refl _, Nat.le_of_lt hlt, (isCut_startOf hr).2⟩, ?_, ?_⟩
      · intro u hu
        rw [List.mem_singleton.1 hu]
        exact ⟨hstart, hstop⟩
      · intro u hu l hl
        rw [List.mem_singleton.1 hu] at hl ⊢
        rw [List.mem_singleton.1 hl]
        exact ⟨Nat.le_refl _, Nat.le_refl _⟩
  | @node kind r r' F inside _ ih =>
    intro pos hr
    obtain ⟨⟨pos', hr'⟩, hF⟩ := ih pos hr
    -- A node stands where its children do, or at the place where it was finished.
    obtain ⟨hlo, hle, hhi, hstart, hstop⟩ := hF.node_span kind (isCut_startOf hr').1
    refine ⟨⟨pos', hr'⟩, ⟨hlo, hle, hhi⟩, ?_, ?_⟩
    · intro u hu
      rw [List.mem_singleton.1 hu]
      exact ⟨hstart, hstop⟩
    · intro u hu l hl
      rw [List.mem_singleton.1 hu] at hl ⊢
      rw [Tree.leaves_ofChildren] at hl
      exact hF.node_covers l hl
  | append _ _ ihF ihG =>
    intro pos hr
    obtain ⟨⟨pos₁, hr₁⟩, hF⟩ := ihF pos hr
    obtain ⟨hr', hG⟩ := ihG pos₁ hr₁
    exact ⟨hr', hF.append hG⟩

/-! ## Exact nodes -/

/-- Whether a token, and not the end of the tokens, lies between two offsets. -/
def Token.liesIn (start stop : Nat) (t : Token) : Bool :=
  t.kind ≠ .eof && start ≤ t.start && t.stop ≤ stop

/-- **A node is exact** in the stream of a text. -/
structure Tree.Exact (src : Text) (tokens : List Token) (n : Tree) : Prop where
  /-- Every child ends before any later one starts. -/
  ordered : n.children.Pairwise fun c d => c.stop ≤ d.start
  /-- The node starts where its first child does … -/
  start_eq : ∀ c, n.children.head? = some c → n.start = c.start
  /-- … and stops where its last child does. -/
  stop_eq : ∀ c, n.children.getLast? = some c → n.stop = c.stop
  /-- The tokens between its two offsets are its leaves. -/
  leaves_eq : tokens.filter (Token.liesIn n.start n.stop) = n.leaves
  /-- Its two offsets are cuts of the source, with its text between them … -/
  cut_eq : ∃ front back, src = front ++ n.text src ++ back ∧ Text.size front = n.start ∧
    Text.size (front ++ n.text src) = n.stop
  /-- … and it is there that the text is taken from. -/
  text_eq : Text.slice? src n.start n.stop = some (n.text src)

section Exact

variable {fits : NodeKind → List Tree → Prop} {src : Text} {tokens front r r' : List Token}
  {last : Nat} {F : List Tree}

/-- The tokens between the offsets of a node are its leaves. Those before it have ended when it
starts, those after it start when it has ended, and none of them is empty. -/
theorem Forest.filter_liesIn {start stop pos' : Nat} (h : Forest fits last r F r')
    (htokens : tokens = front ++ r)
    (hfront : ∀ t ∈ front, t.start < t.stop ∧ t.stop ≤ start)
    (hinside : ∀ t ∈ Tree.leavesOf F, start ≤ t.start ∧ t.stop ≤ stop)
    (hr' : Token.Stream src pos' r') (hstop : stop ≤ startOf last r') :
    tokens.filter (Token.liesIn start stop) = Tree.leavesOf F := by
  have hbefore : front.filter (Token.liesIn start stop) = [] := by
    rw [List.filter_eq_nil_iff]
    intro t ht hlies
    have hpos := hfront t ht
    simp [Token.liesIn] at hlies
    omega
  have hleaves : (Tree.leavesOf F).filter (Token.liesIn start stop) = Tree.leavesOf F := by
    rw [List.filter_eq_self]
    intro t ht
    simp [Token.liesIn, h.kind_ne_eof t ht, hinside t ht]
  have hafter : r'.filter (Token.liesIn start stop) = [] := by
    rw [List.filter_eq_nil_iff]
    intro t ht hlies
    obtain ⟨u, us, rfl, -, -⟩ := hr'.eq_cons
    -- A token that starts at `stop` or later and is not empty does not end by `stop`.
    have hpos := hr'.at_start.le_start t ht
    have hu : stop ≤ u.start := hstop
    simp [Token.liesIn] at hlies
    have hlt := hpos.2 hlies.1.1
    omega
  rw [htokens, ← h.leaves_append, List.filter_append, List.filter_append, hbefore, hleaves, hafter,
    List.nil_append, List.append_nil]

/-- **A finished node is exact.** -/
theorem Forest.exact_node (kind : NodeKind) (h : Forest fits last r F r')
    (hsrc : Token.Stream src 0 tokens) (htokens : tokens = front ++ r) (hr : r ≠ []) :
    (Tree.ofChildren kind F (startOf last r')).Exact src tokens := by
  obtain ⟨pos, -, hstream, hfront⟩ := Token.Stream.drop_front (htokens ▸ hsrc) hr
  obtain ⟨⟨pos', hr'⟩, hF⟩ := h.spanned pos hstream
  obtain ⟨hlo, hle, hhi, hstart, hstop⟩ := hF.node_span kind (isCut_startOf hr').1
  have hpos : pos ≤ startOf last r := (isCut_startOf hstream).2
  -- The two offsets of the node are cuts, so the slice between them exists.
  obtain ⟨a, b, c, habc, ha, hab⟩ := hstart.three_parts hstop hle
  have hslice := Text.slice?_three_parts a b c
  rw [← habc, ha, hab] at hslice
  have htext : (Tree.ofChildren kind F (startOf last r')).text src = b := by
    rw [Tree.text, hslice, Option.getD_some]
  refine ⟨?_, ?_, ?_, ?_, ?_, ?_⟩
  · rw [Tree.children_ofChildren]
    exact hF.inOrder.pairwise
  · intro c hc
    rw [Tree.children_ofChildren] at hc
    obtain ⟨-, l, -, hl⟩ := Tree.exists_first_last (List.ne_nil_of_mem (List.mem_of_mem_head? hc))
    exact (Tree.span_ofChildren kind _ hF.inOrder hc hl).1
  · intro c hc
    rw [Tree.children_ofChildren] at hc
    obtain ⟨f, -, hf, -⟩ := Tree.exists_first_last (List.ne_nil_of_mem (List.mem_of_getLast? hc))
    exact (Tree.span_ofChildren kind _ hF.inOrder hf hc).2
  · rw [Tree.leaves_ofChildren]
    refine h.filter_liesIn htokens ?_ hF.node_covers hr' hhi
    intro t ht
    have ht' := hfront t ht
    omega
  · rw [htext]
    exact ⟨a, c, habc, ha, hab⟩
  · rw [htext]
    exact hslice

/-- **Every node of a forest is exact.** -/
theorem Forest.exact (h : Forest fits last r F r') (hsrc : Token.Stream src 0 tokens) :
    ∀ front, tokens = front ++ r → r ≠ [] → ∀ n ∈ Tree.descendantsOf F, n.Exact src tokens := by
  induction h with
  | nil => simp [Tree.descendantsOf]
  | leaf => simp [Tree.descendantsOf]
  | @node kind r r' F inside _ ih =>
    intro front htokens hr n hn
    rw [Tree.descendantsOf_ofChildren] at hn
    rcases List.mem_cons.1 hn with rfl | hn
    · exact inside.exact_node kind hsrc htokens hr
    · exact ih front htokens hr n hn
  | @append r r₁ r' F G left right ihF ihG =>
    intro front htokens hr n hn
    rw [Tree.descendantsOf_append] at hn
    rcases List.mem_append.1 hn with hn | hn
    · exact ihF front htokens hr n hn
    · -- What is left behind the first forest is still a stream, so it is not empty.
      obtain ⟨pos, -, hstream, -⟩ := Token.Stream.drop_front (htokens ▸ hsrc) hr
      obtain ⟨⟨pos₁, hr₁⟩, -⟩ := left.spanned pos hstream
      obtain ⟨t, ts, hcons, -, -⟩ := hr₁.eq_cons
      refine ihG (front ++ Tree.leavesOf F) ?_ (by simp [hcons]) n hn
      rw [htokens, List.append_assoc, left.leaves_append]

/-- **Every node of a forest fits.** -/
theorem Forest.fits_of_mem (h : Forest fits last r F r') :
    ∀ n ∈ Tree.descendantsOf F, ∃ kind, n.kind? = some kind ∧ fits kind n.children := by
  induction h with
  | nil => simp [Tree.descendantsOf]
  | leaf => simp [Tree.descendantsOf]
  | @node kind r r' F inside hfits ih =>
    intro n hn
    rw [Tree.descendantsOf_ofChildren] at hn
    rcases List.mem_cons.1 hn with rfl | hn
    · exact ⟨kind, Tree.kind?_ofChildren .., by rwa [Tree.children_ofChildren]⟩
    · exact ih n hn
  | append _ _ ihF ihG =>
    intro n hn
    rw [Tree.descendantsOf_append] at hn
    rcases List.mem_append.1 hn with hn | hn
    · exact ihF n hn
    · exact ihG n hn

end Exact

/-! ## The tree of a text -/

/-- A root without children is that of a text without tokens. -/
theorem length_eq_one_of_childless {src : Text} {tokens : List Token}
    (h : Token.lex src = .ok tokens) (hroot : (Token.parse tokens).root.children = []) :
    tokens.length = 1 := by
  rcases leaves_end h with ⟨e, -, htokens⟩ | ⟨-, e, d, F, -, -, -, hF⟩
  · obtain ⟨F, hF⟩ := (Grammar.parse_end tokens).1.unitFrame
    rw [Token.parse, root_eq hF, Tree.children_ofChildren] at hroot
    rw [htokens, Token.parse, root_eq hF, Tree.leaves_ofChildren, hroot]
    rfl
  · rw [hroot] at hF
    exact absurd hF.symm (by simp)

/-- **Spans are exact.** Every node of the tree of a text is exact, and one without children is an
expression, a type, an `error` node, or the root of a text that has no token but the final `eof`. -/
theorem nodes_exact {src : Text} {tokens : List Token} (h : Token.lex src = .ok tokens) :
    ∃ tree, SyntaxTree.ofText src = .ok tree ∧
      ∀ n ∈ tree.root :: tree.root.descendants, n.Exact src tokens ∧
        (n.children = [] → n.kind? = some .expr ∨ n.kind? = some .typeRef ∨
          n.kind? = some .error ∨ n = tree.root ∧ tokens.length = 1) := by
  obtain ⟨F, hframes, hforest⟩ := exists_forest (fun _ => .inl rfl) Grammar.forms_rules
    Grammar.forms_unit tokens
  have hstream := Token.stream_lex h
  have hnil : tokens ≠ [] := by
    obtain ⟨t, ts, hcons, -⟩ := hstream.eq_cons
    rw [hcons]
    exact List.cons_ne_nil _ _
  have hroot : (Token.parse tokens).root = Tree.ofChildren .unit F
      (startOf (State.initial tokens).lastStart (Token.parseState tokens).rest) := by
    have hlast : (Token.parseState tokens).lastStart = (State.initial tokens).lastStart :=
      (Grammar.runs_unit tokens).lastStart_eq
    rw [Token.parse, root_eq hframes, State.offset_eq, hlast]
  refine ⟨Token.parse tokens, ofText_eq h, fun n hn => ?_⟩
  rcases List.mem_cons.1 hn with rfl | hn
  · refine ⟨?_, fun hchildren => ?_⟩
    · rw [hroot]
      exact hforest.exact_node .unit hstream (List.nil_append _).symm hnil
    · exact .inr (.inr (.inr ⟨rfl, length_eq_one_of_childless h hchildren⟩))
  · rw [hroot, Tree.descendants_ofChildren] at hn
    refine ⟨hforest.exact hstream [] rfl hnil n hn, fun hchildren => ?_⟩
    obtain ⟨kind, hkind, hfilled⟩ := hforest.fits_of_mem n hn
    rw [hkind]
    rcases hfilled with hempty | hfull
    · cases kind <;> simp_all [NodeKind.mayBeEmpty]
    · exact absurd hchildren hfull

/-- A conditional without a condition, whose `expr` node stands behind a comment. -/
theorem nodes_exact_empty_condition :
    ∃ tokens, Token.lex "begin if {é} then x".toList = .ok tokens ∧
      ∃ tree, SyntaxTree.ofText "begin if {é} then x".toList = .ok tree ∧
        ∀ n ∈ tree.root :: tree.root.descendants, n.Exact "begin if {é} then x".toList tokens ∧
          (n.children = [] → n.kind? = some .expr ∨ n.kind? = some .typeRef ∨
            n.kind? = some .error ∨ n = tree.root ∧ tokens.length = 1) := by
  have h : Token.lex "begin if {é} then x".toList = .ok
      [⟨.keyword .kwBegin, 0, 5⟩, ⟨.keyword .kwIf, 6, 8⟩, ⟨.keyword .kwThen, 14, 18⟩,
       ⟨.ident "x".toList, 19, 20⟩, ⟨.eof, 20, 20⟩] := by with_unfolding_all rfl
  exact ⟨_, h, nodes_exact h⟩

end PascalAtlas
