import PascalAtlas.Frontend
import PascalAtlas.Proofs.MaskedTokens
import PascalAtlas.Proofs.Seen
import PascalAtlas.Proofs.View

/-!
# The unit of a masked text

The mask blanks comments and the contents of string literals. The tree of a masked text is the
tree of the text with its tokens masked (`root_parse_masked`), so whatever a unit takes from
tokens is the same: names, ancestors, accessors and the nesting of statements. The rest is **cut
from the text**: types, parameters, and the text that decides what a simple statement is. There a
comment counts. `parameters_of_comment` declares a parameter out of one, and
`surface_ofSource_mask` says that nothing else can happen: where the cuts are `Undisturbed` by the
mask, the whole surface is the same.

Going through the builder, both texts are kept in sight at once: `View.Agrees` says of every node
that the two cuts look alike in a view, and each function of the builder has one lemma which says
that it then gives the same.
-/

namespace PascalAtlas

open List (Forall₂)

/-! ## Trees with other tokens -/

namespace Tree

mutual

/-- A tree with its tokens exchanged. -/
def relabel (f : Token → Token) : Tree → Tree
  | .leaf t => .leaf (f t)
  | .node kind start stop children => .node kind start stop (relabelAll f children)

/-- Some trees with their tokens exchanged. -/
def relabelAll (f : Token → Token) : List Tree → List Tree
  | [] => []
  | t :: ts => t.relabel f :: relabelAll f ts

end

variable {f : Token → Token}

/-- Exchanging the tokens of some trees is done tree by tree. -/
theorem relabelAll_eq (ts : List Tree) : relabelAll f ts = ts.map (relabel f) := by
  induction ts with
  | nil => rfl
  | cons t ts ih => rw [relabelAll, ih, List.map_cons]

@[simp] theorem children_relabel (t : Tree) :
    (t.relabel f).children = t.children.map (relabel f) := by
  cases t with
  | leaf t => rfl
  | node kind start stop children => rw [relabel, Tree.children, relabelAll_eq, Tree.children]

@[simp] theorem kind?_relabel (t : Tree) : (t.relabel f).kind? = t.kind? := by
  cases t <;> rfl

/-- Exchanging tokens leaves the nodes where they are. -/
@[simp] theorem nodes_relabel (t : Tree) : (t.relabel f).nodes = t.nodes.map (relabel f) := by
  rw [nodes, children_relabel, nodes, List.filter_map]
  simp only [Function.comp_def, kind?_relabel]

@[simp] theorem tokens_relabel (t : Tree) : (t.relabel f).tokens = t.tokens.map f := by
  have htoken : token? ∘ relabel f = Option.map f ∘ token? := by
    funext t
    cases t <;> rfl
  rw [tokens, children_relabel, tokens, List.filterMap_map, htoken, List.map_filterMap]
  rfl

/-- And the search for a child among them. -/
@[simp] theorem child?_relabel (kind : NodeKind) (t : Tree) :
    (t.relabel f).child? kind = (t.child? kind).map (relabel f) := by
  rw [child?, nodes_relabel, child?, List.find?_map]
  simp only [Function.comp_def, kind?_relabel]

mutual

/-- The first token is exchanged like the others. -/
theorem firstToken?_relabel : (t : Tree) → (t.relabel f).firstToken? = t.firstToken?.map f
  | .leaf t => rfl
  | .node _ _ _ children => by
    rw [relabel, firstToken?, firstTokenOf?_relabel children, firstToken?]

/-- So is the first token of some trees. -/
theorem firstTokenOf?_relabel : (ts : List Tree) →
    firstTokenOf? (relabelAll f ts) = (firstTokenOf? ts).map f
  | [] => rfl
  | t :: ts => by rw [relabelAll, firstTokenOf?, firstToken?_relabel t, firstTokenOf?]

end

/-- Exchanging tokens for others in the same places leaves the text where it is. -/
theorem text_relabel (hstart : ∀ t, (f t).start = t.start) (hstop : ∀ t, (f t).stop = t.stop)
    (src : Text) (t : Tree) : (t.relabel f).text src = t.text src := by
  cases t with
  | leaf t => simp [text, relabel, start, stop, hstart, hstop]
  | node => rfl

end Tree

/-! ## The tree of a masked text -/

namespace Token

@[simp] theorem start_masked (t : Token) : t.masked.start = t.start := by
  unfold masked
  split <;> rfl

@[simp] theorem stop_masked (t : Token) : t.masked.stop = t.stop := by
  unfold masked
  split <;> rfl

/-- Masking changes only the **text of string literals**. -/
theorem kind_masked {α : Type} (g : TokenKind → α) (hg : ∀ a b, g (.str a) = g (.str b))
    (t : Token) :
    g t.masked.kind = g t.kind := by
  unfold masked
  split
  next value hkind => rw [hkind, hg]
  next => rfl

/-- How the tokens of a masked text correspond to those of the text. -/
def masking : Likeness where
  token t t' := t' = t.masked
  offset a a' := a' = a
  seen_eq := by
    rintro t _ rfl
    exact (kind_masked TokenKind.seen (fun _ _ => rfl) t).symm
  start_like := by rintro t _ rfl; exact start_masked t
  stop_like := by rintro t _ rfl; exact stop_masked t
  ordered := Likeness.ordered_of_eq

end Token

namespace Tree

mutual

/-- A tree that is like another up to its mask **is** the other, masked. -/
theorem eq_relabel_of_like :
    (t : Tree) → {t' : Tree} → Like Token.masking t t' → t' = t.relabel Token.masked
  | .leaf t, t', h => by
    cases h with
    | leaf h => rw [h, relabel]
  | .node kind start stop children, t', h => by
    cases h with
    | node hstart hstop hchildren =>
      rw [hstart, hstop, eq_relabelAll_of_like children hchildren, relabel]

/-- So are lists of trees. -/
theorem eq_relabelAll_of_like : (ts : List Tree) → {ts' : List Tree} →
    Forall₂ (Like Token.masking) ts ts' → ts' = relabelAll Token.masked ts
  | [], ts', h => by
    cases h
    rfl
  | t :: ts, ts', h => by
    cases h with
    | cons ht hts => rw [eq_relabel_of_like t ht, eq_relabelAll_of_like ts hts, relabelAll]

end

end Tree

/-- **The tree of a masked text** is the tree of the text with its tokens masked. -/
theorem root_parse_masked (tokens : List Token) :
    (Token.parse (tokens.map Token.masked)).root
      = (Token.parse tokens).root.relabel Token.masked := by
  have htokens : Forall₂ Token.masking.token tokens (tokens.map Token.masked) :=
    List.forall₂_map_right_iff.2 (List.forall₂_same.2 fun _ _ => rfl)
  exact Tree.eq_relabel_of_like _ (Token.like_parse htokens rfl).1

/-! ## What is read from tokens -/

namespace Source

open Token (masked kind_masked)

/-- Only literals are changed, and they stay literals. -/
theorem masked_cases (t : Token) :
    t.masked = t ∨ ∃ a b, t.kind = .str a ∧ t.masked.kind = .str b := by
  unfold masked
  split
  next value hkind => exact .inr ⟨value, _, hkind, rfl⟩
  next => exact .inl rfl

/-- Names with dots have no literals in them. -/
theorem dottedChars_masked (wantName : Bool) (ts : List Token) :
    dottedChars wantName (ts.map masked) = dottedChars wantName ts := by
  induction ts generalizing wantName with
  | nil => rfl
  | cons t ts ih =>
    rcases masked_cases t with ht | ⟨a, b, ht, ht'⟩
    · simp only [List.map_cons, dottedChars, ht, ih]
    · simp only [List.map_cons, dottedChars, ht, ht']

/-- So a name is the same in the masked text. -/
theorem dottedName_masked (ts : List Token) : dottedName (ts.map masked) = dottedName ts := by
  rw [dottedName, dottedChars_masked, dottedName]

/-- So are the parts of the name of a routine. -/
theorem nameParts_masked (depth : Nat) (wantName : Bool) (ts : List Token) :
    nameParts depth wantName (ts.map masked) = nameParts depth wantName ts := by
  induction ts generalizing depth wantName with
  | nil => rfl
  | cons t ts ih =>
    rcases masked_cases t with ht | ⟨a, b, ht, ht'⟩
    · simp only [List.map_cons, nameParts, ht, ih]
    · simp only [List.map_cons, nameParts, ht, ht', ih]

/-- A test of tokens that looks at their kinds, but not into string literals. -/
theorem test_masked (p : TokenKind → Bool) (hp : ∀ a b, p (.str a) = p (.str b)) :
    (fun t : Token => p t.kind) ∘ masked = fun t : Token => p t.kind := by
  funext t
  exact kind_masked p hp t

/-- A list is cut in the same places, if the test does not see the change. -/
theorem splitBy_map {α : Type} (f : α → α) (p : α → Bool) (hp : p ∘ f = p) (ts : List α) :
    Text.splitBy p (ts.map f) = (Text.splitBy p ts).map (List.map f) := by
  induction ts with
  | nil => rfl
  | cons t ts ih =>
    have ht : p (f t) = p t := congrFun hp t
    rw [List.map_cons, Text.splitBy, Text.splitBy, ht, ih]
    split
    · rfl
    · cases Text.splitBy p ts <;> rfl

/-- The used units are the same. -/
theorem usedUnits_masked (clause : Tree) :
    usedUnits (clause.relabel masked) = usedUnits clause := by
  have htest := test_masked (fun k => k == .symbol .comma || k == .symbol .semi) (fun _ _ => rfl)
  have hname : dottedName ∘ List.map masked = dottedName := funext dottedName_masked
  rw [usedUnits, Tree.tokens_relabel, ← List.map_drop, splitBy_map _ _ htest, List.map_map,
    hname, usedUnits]

/-- The first name in a node is the same. -/
theorem ident?_masked (t : Tree) : (t.relabel masked).ident? = t.ident? := by
  rw [Tree.ident?, Tree.tokens_relabel, Tree.ident?, List.findSome?_map]
  congr 1
  funext t
  obtain ⟨kind, start, stop⟩ := t
  cases kind <;> rfl

/-- The accessors of a property are the same. -/
theorem accessor_masked (word : Text) (ts : List Token) :
    accessor word (ts.map masked) = accessor word ts := by
  have htest := test_masked (fun k => !k.isWord word) (fun _ _ => rfl)
  rw [accessor, List.dropWhile_map, htest, accessor]
  cases ts.dropWhile fun t => !t.kind.isWord word with
  | nil => rfl
  | cons t ts => simp only [List.map_cons, dottedName_masked]

end Source

/-! ## What is cut from the text -/

namespace View

variable {v : View} {src src' : Text}

/-- Whether a node **agrees** in two texts as far as a view shows it: the view shows nothing of what
is cut from the text there, or the same is cut from both. -/
def NodeAgrees (v : View) (src src' : Text) (n : Tree) : Prop :=
  match n.kind? with
  | some .typeRef => (∀ a b, v.type a = v.type b) ∨ n.text src' = n.text src
  | some .formalParams => (∀ a b, v.params a = v.params b) ∨ n.text src' = n.text src
  | some .simple =>
    v.form (SimpleForm.ofText (n.text src')) = v.form (SimpleForm.ofText (n.text src))
  | _ => True

/-- Whether a tree agrees in two texts as far as a view shows it. -/
def Agrees (v : View) (src src' : Text) (t : Tree) : Prop :=
  ∀ n ∈ t :: t.descendants, v.NodeAgrees src src' n

/-- A tree and what is below it are among what is below the trees around it. -/
theorem mem_descendantsOf {n : Tree} {ts : List Tree} (hn : n ∈ ts) :
    (n.kind?.isSome → n ∈ Tree.descendantsOf ts)
      ∧ ∀ m ∈ n.descendants, m ∈ Tree.descendantsOf ts := by
  induction ts with
  | nil => cases hn
  | cons t ts ih =>
    rcases List.mem_cons.1 hn with rfl | hn
    · cases n with
      | leaf t => simp [Tree.kind?, Tree.descendants]
      | node kind start stop children =>
        rw [Tree.descendantsOf]
        exact ⟨fun _ => List.mem_cons_self ..,
          fun m hm => List.mem_cons_of_mem _ (List.mem_append_left _ hm)⟩
    · obtain ⟨h1, h2⟩ := ih hn
      cases t with
      | leaf t =>
        rw [Tree.descendantsOf]
        exact ⟨h1, h2⟩
      | node kind start stop children =>
        rw [Tree.descendantsOf]
        exact ⟨fun h => List.mem_cons_of_mem _ (List.mem_append_right _ (h1 h)),
          fun m hm => List.mem_cons_of_mem _ (List.mem_append_right _ (h2 m hm))⟩

/-- What agrees, agrees in all its parts. -/
theorem Agrees.child {t n : Tree} (h : v.Agrees src src' t) (hn : n ∈ t.children) :
    v.Agrees src src' n := by
  have hdescendants : t.descendants = Tree.descendantsOf t.children := by
    cases t <;> simp [Tree.descendants, Tree.children, Tree.descendantsOf]
  obtain ⟨hself, hbelow⟩ := mem_descendantsOf hn
  intro m hm
  rcases List.mem_cons.1 hm with rfl | hm
  · cases hkind : m.kind? with
    | none => rw [NodeAgrees, hkind]; exact trivial
    | some kind =>
      refine h m (List.mem_cons_of_mem _ ?_)
      rw [hdescendants]
      exact hself (by rw [hkind]; rfl)
  · refine h m (List.mem_cons_of_mem _ ?_)
    rw [hdescendants]
    exact hbelow m hm

/-- Where a node agrees, so do its children. -/
theorem Agrees.child? {t n : Tree} {kind : NodeKind} (h : v.Agrees src src' t)
    (hn : t.child? kind = some n) :
    v.Agrees src src' n ∧ n.kind? = some kind := by
  refine ⟨h.child (List.mem_filter.1 (List.mem_of_find?_eq_some hn)).1, ?_⟩
  simpa using List.find?_some hn

variable {s s' : Source}

/-- The type of a declaration, whatever is done to it. -/
theorem typeText_eq {decl : Tree} (h : v.Agrees s.text s'.text decl) (g : Text → Text) :
    v.type (g (s'.typeText (decl.relabel Token.masked))) = v.type (g (s.typeText decl)) := by
  rw [Source.typeText, Tree.child?_relabel, Source.typeText]
  cases hchild : decl.child? .typeRef with
  | none => rfl
  | some n =>
    obtain ⟨hn, hkind⟩ := h.child? hchild
    have hnode := hn n (List.mem_cons_self ..)
    rw [NodeAgrees, hkind] at hnode
    simp only [Option.map_some]
    rw [Tree.text_relabel Token.start_masked Token.stop_masked]
    rcases hnode with hall | htext
    · exact hall _ _
    · rw [htext]

/-- **The parameters look the same**, though they are cut from the text. -/
theorem paramsText_eq {heading : Tree} (h : v.Agrees s.text s'.text heading) :
    v.params (Param.parseList (s'.paramsText (heading.relabel Token.masked)))
      = v.params (Param.parseList (s.paramsText heading)) := by
  rw [Source.paramsText, Tree.child?_relabel, Source.paramsText]
  cases hchild : heading.child? .formalParams with
  | none => rfl
  | some n =>
    obtain ⟨hn, hkind⟩ := h.child? hchild
    have hnode := hn n (List.mem_cons_self ..)
    rw [NodeAgrees, hkind] at hnode
    simp only [Option.map_some]
    rw [Tree.text_relabel Token.start_masked Token.stop_masked]
    rcases hnode with hall | htext
    · exact hall _ _
    · rw [htext]

/-! ## Headings and classes -/

/-- A heading has the same owner, and the same routine in the view. -/
theorem heading_eq {h : Tree} (hagrees : v.Agrees s.text s'.text h) :
    (s'.heading (h.relabel Token.masked)).1 = (s.heading h).1
      ∧ v.routine (s'.heading (h.relabel Token.masked)).2 = v.routine (s.heading h).2 := by
  have htest := Source.test_masked (fun k => k == .keyword .kwClass) (fun _ _ => rfl)
  have htokens : (h.relabel Token.masked).tokens.dropWhile (fun t => t.kind == .keyword .kwClass)
      = (h.tokens.dropWhile fun t => t.kind == .keyword .kwClass).map Token.masked := by
    rw [Tree.tokens_relabel, List.dropWhile_map, htest]
  have hkind (ts : List Token) :
      Source.routineKind ((ts.map Token.masked).head?.map Token.kind)
      = Source.routineKind (ts.head?.map Token.kind) := by
    cases ts with
    | nil => rfl
    | cons t ts => exact Token.kind_masked (fun k => Source.routineKind (some k)) (fun _ _ => rfl) t
  rw [Source.heading, Source.heading]
  simp only [htokens, hkind, ← List.map_tail, Source.nameParts_masked, routine,
    Routine.heading, true_and]
  rw [paramsText_eq hagrees, typeText_eq hagrees]

/-- The name that a token is, if it is one. -/
def tokenName? (t : Token) : Option Text :=
  match t.kind with
  | .ident name => some name
  | _ => none

theorem fields_def (s : Source) (decl : Tree) :
    s.fields decl
      = ((decl.tokens.takeWhile fun t => t.kind != .symbol .colon).filterMap tokenName?).map
      fun name => ⟨name, s.typeText decl, s.extentOf decl⟩ := rfl

/-- Fields look the same. -/
theorem fields_eq {decl : Tree} (h : v.Agrees s.text s'.text decl) :
    (s'.fields (decl.relabel Token.masked)).map v.field = (s.fields decl).map v.field := by
  have htest := Source.test_masked (fun k => k != .symbol .colon) (fun _ _ => rfl)
  have hname : tokenName? ∘ Token.masked = tokenName? := by
    funext t
    exact Token.kind_masked (fun k => match k with | .ident name => some name | _ => none)
      (fun _ _ => rfl) t
  have htype : v.type (s'.typeText (decl.relabel Token.masked)) = v.type (s.typeText decl) :=
    typeText_eq h id
  rw [fields_def, fields_def, Tree.tokens_relabel, List.takeWhile_map, htest, List.filterMap_map,
    hname, List.map_map, List.map_map]
  refine List.map_congr_left fun name _ => ?_
  simp only [Function.comp_apply, field, htype]

/-- So do properties. -/
theorem property?_eq {decl : Tree} (h : v.Agrees s.text s'.text decl) :
    (s'.property? (decl.relabel Token.masked)).map v.property
      = (s.property? decl).map v.property := by
  have htype : v.type (s'.typeText (decl.relabel Token.masked)) = v.type (s.typeText decl) :=
    typeText_eq h id
  rw [Source.property?, Source.property?, Source.ident?_masked, Tree.tokens_relabel,
    Source.accessor_masked, Source.accessor_masked]
  cases decl.ident? with
  | none => rfl
  | some name => simp only [Option.map_some, property, htype]

/-- The members of a class are the same nodes. -/
theorem membersOf_relabel (kind : NodeKind) (body : Tree) (f : Token → Token) :
    Source.membersOf kind (body.relabel f) = (Source.membersOf kind body).map (Tree.relabel f) := by
  rw [Source.membersOf, Tree.nodes_relabel, List.filter_map, Source.membersOf]
  simp [Function.comp_def]

/-- Members agree where their class does. -/
theorem Agrees.member {body m : Tree} (h : v.Agrees src src' body) {kind : NodeKind}
    (hm : m ∈ Source.membersOf kind body) : v.Agrees src src' m :=
  h.child (List.mem_filter.1 (List.mem_filter.1 hm).1).1

/-- **Classes look the same.** -/
theorem class?_eq {decl : Tree} (h : v.Agrees s.text s'.text decl) :
    (s'.class? (decl.relabel Token.masked)).map v.classDecl = (s.class? decl).map v.classDecl := by
  rw [Source.class?, Source.class?, Tree.child?_relabel, Source.ident?_masked]
  cases hbody : decl.child? .classType with
  | none => rfl
  | some body =>
    cases decl.ident? with
    | none => rfl
    | some name =>
      have hagrees := (h.child? hbody).1
      have hancestor : ((body.relabel Token.masked).child? .heritage).bind
            (fun h => some (Source.dottedName (h.tokens.drop 1))
              |>.filter fun name => !name.isEmpty)
          = (body.child? .heritage).bind
            (fun h => some (Source.dottedName (h.tokens.drop 1))
              |>.filter fun name => !name.isEmpty) := by
        rw [Tree.child?_relabel]
        cases body.child? .heritage with
        | none => rfl
        | some n =>
          simp only [Option.map_some, Option.bind_some, Tree.tokens_relabel, ← List.map_drop,
            Source.dottedName_masked]
      have hrecord : ((body.relabel Token.masked).tokens.take 2).any
          (fun t => t.kind == .keyword .kwRecord)
          = (body.tokens.take 2).any fun t => t.kind == .keyword .kwRecord := by
        rw [Tree.tokens_relabel, ← List.map_take, List.any_map,
          Source.test_masked (fun k => k == .keyword .kwRecord) (fun _ _ => rfl)]
      have hfields : ((Source.membersOf .fieldDecl (body.relabel Token.masked)).flatMap
            s'.fields).map v.field
          = ((Source.membersOf .fieldDecl body).flatMap s.fields).map v.field := by
        rw [membersOf_relabel, List.flatMap_map, List.map_flatMap, List.map_flatMap]
        exact List.flatMap_congr fun m hm => fields_eq (hagrees.member hm)
      have hproperties :
          ((Source.membersOf .propertyDecl (body.relabel Token.masked)).filterMap s'.property?).map
              v.property
            = ((Source.membersOf .propertyDecl body).filterMap s.property?).map v.property := by
        rw [membersOf_relabel, List.filterMap_map, List.map_filterMap, List.map_filterMap]
        exact List.filterMap_congr fun m hm => property?_eq (hagrees.member hm)
      have hmethods : ((Source.membersOf .routineHeading (body.relabel Token.masked)).map
            fun m => (s'.heading m).2.withExtent (s'.extentOf m)).map v.routine
          = ((Source.membersOf .routineHeading body).map
            fun m => (s.heading m).2.withExtent (s.extentOf m)).map v.routine := by
        rw [membersOf_relabel, List.map_map, List.map_map, List.map_map]
        exact List.map_congr_left fun m hm => (heading_eq (hagrees.member hm)).2
      simp only [Option.map_some, classDecl, hancestor, hrecord, hfields, hproperties, hmethods]

/-! ## Statements -/

/-- Statements that look the same are pushed onto scopes that look the same. -/
theorem push_eq {found found' : List Statement} (hfound : v.statements found' = v.statements found)
    {scopes scopes' : Source.Scopes} (h : scopes'.map v.statements = scopes.map v.statements) :
    (Source.Scopes.push found' scopes').map v.statements
      = (Source.Scopes.push found scopes).map v.statements := by
  cases scopes with
  | nil =>
    obtain rfl := List.map_eq_nil_iff.1 h
    rfl
  | cons top scopes =>
    obtain ⟨top', scopes', rfl, htop, hscopes⟩ := List.map_eq_cons_iff.1 h
    rw [Source.Scopes.push, Source.Scopes.push, List.map_cons, List.map_cons, statements_append,
      statements_append, htop, hfound, hscopes]

/-- Without its header the shape of a block is told by its kind. -/
theorem bare_blockShape (kind : NodeKind) (header header' : Text) :
    (Source.blockShape kind header').bare = (Source.blockShape kind header).bare := by
  cases kind <;> rfl

/-- Leaving a block keeps what the scopes look like. -/
theorem leaveBlock_eq (kind : NodeKind) (block block' : Tree) {scopes scopes' : Source.Scopes}
    (h : scopes'.map v.statements = scopes.map v.statements) :
    (s'.leaveBlock kind block' scopes').map v.statements
      = (s.leaveBlock kind block scopes).map v.statements := by
  cases scopes with
  | nil =>
    obtain rfl := List.map_eq_nil_iff.1 h
    rfl
  | cons body scopes =>
    obtain ⟨body', scopes', rfl, hbody, hscopes⟩ := List.map_eq_cons_iff.1 h
    have hlength : scopes'.length = scopes.length := by
      rw [← List.length_map v.statements, hscopes, List.length_map]
    rw [Source.leaveBlock, Source.leaveBlock, hlength]
    split
    · exact push_eq hbody hscopes
    · refine push_eq ?_ hscopes
      rw [statements, statement, hbody, bare_blockShape kind (s.blockHeader block), statements,
        statements, statement, statements]

mutual

/-- So does walking through a tree, by recursion on it. -/
theorem walk_eq : (t : Tree) → v.Agrees s.text s'.text t → {scopes scopes' : Source.Scopes} →
    scopes'.map v.statements = scopes.map v.statements →
    (s'.walk (t.relabel Token.masked) scopes').map v.statements = (s.walk t scopes).map v.statements
  | .leaf t, _, scopes, scopes', h => by
    rw [Tree.relabel, Source.walk, Source.walk]
    exact h
  | .node kind start stop children, hagrees, scopes, scopes', h => by
    have hchildren : ∀ t ∈ children, v.Agrees s.text s'.text t := fun t ht => hagrees.child ht
    rw [Tree.relabel, Source.walk, Source.walk]
    split
    · refine leaveBlock_eq kind _ _ (walkAll_eq children hchildren ?_)
      rw [List.map_cons, h, List.map_cons]
    split
    · exact walkAll_eq children hchildren h
    split
    next hkind =>
      -- Only here is the text of a statement looked at, and here the view has to agree.
      subst hkind
      refine push_eq ?_ h
      have hform :
          v.form (SimpleForm.ofText (Tree.text s'.text (.node .simple start stop children)))
          = v.form (SimpleForm.ofText (Tree.text s.text (.node .simple start stop children))) :=
        hagrees _ (List.mem_cons_self ..)
      rw [statements, statement, statements, statements, statement, statements]
      exact congrArg (fun form => [Statement.simple form {}]) hform
    next => exact h

/-- And through a list of trees. -/
theorem walkAll_eq :
    (ts : List Tree) → (∀ t ∈ ts, v.Agrees s.text s'.text t) → {scopes scopes' : Source.Scopes} →
    scopes'.map v.statements = scopes.map v.statements →
    (s'.walkAll (Tree.relabelAll Token.masked ts) scopes').map v.statements
      = (s.walkAll ts scopes).map v.statements
  | [], _, scopes, scopes', h => by
    rw [Tree.relabelAll, Source.walkAll, Source.walkAll]
    exact h
  | t :: ts, hagrees, scopes, scopes', h => by
    rw [Tree.relabelAll, Source.walkAll, Source.walkAll]
    exact walkAll_eq ts (fun u hu => hagrees u (List.mem_cons_of_mem _ hu))
      (walk_eq t (hagrees t (List.mem_cons_self ..)) h)

end

/-- **The statements of a block look the same.** -/
theorem statements_eq {block : Tree} (h : v.Agrees s.text s'.text block) :
    v.statements (s'.statements (block.relabel Token.masked))
      = v.statements (s.statements block) := by
  have hscopes := walk_eq block h (rfl : List.map v.statements [[]] = _)
  rw [Source.statements, Source.statements]
  generalize s'.walk (block.relabel Token.masked) [[]] = scopes' at hscopes
  generalize s.walk block [[]] = scopes at hscopes
  cases scopes with
  | nil =>
    obtain rfl := List.map_eq_nil_iff.1 hscopes
    rfl
  | cons top scopes =>
    obtain ⟨top', scopes', rfl, htop, -⟩ := List.map_eq_cons_iff.1 hscopes
    exact htop

/-! ## Routines and units -/

/-- Routines that look the same do so with their bodies. -/
theorem withBody_eq {r r' : Routine} (hr : v.routine r' = v.routine r) (body body' : Text)
    {found found' : List Statement} (hfound : v.statements found' = v.statements found) :
    v.routine (r'.withBody body' found') = v.routine (r.withBody body found) := by
  obtain ⟨hname, hkind, hparams, htype, -, -, -, -⟩ := Routine.mk.inj hr
  rw [routine, routine, Routine.mk.injEq]
  exact ⟨hname, hkind, hparams, htype, rfl, rfl, hfound, rfl⟩

/-- Whether a block is in assembler is told by its tokens. -/
theorem isAssembler_masked (block : Tree) :
    Source.isAssembler (block.relabel Token.masked) = Source.isAssembler block := by
  rw [Source.isAssembler, Tree.firstToken?_relabel, Source.isAssembler]
  cases block.firstToken? with
  | none => rfl
  | some t => exact Token.kind_masked (fun k => k == .keyword .kwAsm) (fun _ _ => rfl) t

/-- A routine with the body that its declaration has. -/
def withBodyOf (s : Source) (decl : Tree) (r : Routine) : Routine :=
  match decl.child? .compound with
  | some block => r.withBody (s.innerText block) (s.statements block)
  | none =>
    match (decl.child? .simple).filter Source.isAssembler with
    | some block => r.withBody (s.innerText block) []
    | none => r

theorem routine?_def (s : Source) (decl : Tree) :
    s.routine? decl = (decl.child? .routineHeading).bind fun h =>
      if (s.heading h).2.name.isEmpty then none
      else some ((s.heading h).1,
          withBodyOf s decl ((s.heading h).2.withExtent (s.extentOf decl))) := by
  rw [Source.routine?]
  congr 1
  funext h
  by_cases hempty : (s.heading h).2.name.isEmpty = true
  · rw [if_pos hempty]
    exact if_pos hempty
  · rw [if_neg hempty, withBodyOf]
    refine (if_neg hempty).trans ?_
    cases decl.child? .compound with
    | some block => rfl
    | none => cases (decl.child? .simple).filter Source.isAssembler <;> rfl

/-- The body of a declaration looks the same. -/
theorem withBodyOf_eq {decl : Tree} (h : v.Agrees s.text s'.text decl) {r r' : Routine}
    (hr : v.routine r' = v.routine r) :
    v.routine (withBodyOf s' (decl.relabel Token.masked) r') = v.routine (withBodyOf s decl r) := by
  rw [withBodyOf, withBodyOf, Tree.child?_relabel, Tree.child?_relabel]
  cases hcompound : decl.child? .compound with
  | some block => exact withBody_eq hr _ _ (statements_eq (h.child? hcompound).1)
  | none =>
    cases decl.child? .simple with
    | none => exact hr
    | some block =>
      simp only [Option.map_none, Option.map_some, Option.filter_some, isAssembler_masked]
      by_cases hblock : Source.isAssembler block = true
      · simp only [if_pos hblock]
        exact withBody_eq hr _ _ rfl
      · simp only [if_neg hblock]
        exact hr

/-- **Routines look the same.** -/
theorem routine?_eq {decl : Tree} (h : v.Agrees s.text s'.text decl) :
    (s'.routine? (decl.relabel Token.masked)).map (fun found => (found.1, v.routine found.2))
      = (s.routine? decl).map fun found => (found.1, v.routine found.2) := by
  rw [routine?_def, routine?_def, Tree.child?_relabel]
  cases hheading : decl.child? .routineHeading with
  | none => rfl
  | some n =>
    obtain ⟨howner, hroutine⟩ := heading_eq (h.child? hheading).1
    have hname : (s'.heading (n.relabel Token.masked)).2.name = (s.heading n).2.name :=
      (Routine.mk.inj hroutine).1
    simp only [Option.map_some, Option.bind_some, hname, howner]
    by_cases hempty : (s.heading n).2.name.isEmpty = true
    · rw [if_pos hempty, if_pos hempty]
    · rw [if_neg hempty, if_neg hempty, Option.map_some, Option.map_some]
      exact congrArg (fun r => some (_, r)) (withBodyOf_eq h hroutine)

/-- The declarations of a masked tree are those of the tree, masked. -/
theorem declarations_relabel {tree tree' : SyntaxTree}
    (h : tree'.root = tree.root.relabel Token.masked) (kind : NodeKind) :
    SourceUnit.declarations kind tree'
      = (SourceUnit.declarations kind tree).map (Tree.relabel Token.masked) := by
  rw [SourceUnit.declarations, h]
  exact membersOf_relabel kind tree.root Token.masked

/-- Attaching routines that look the same gives units that look the same. -/
theorem foldl_attach_eq {found found' : List (Option Text × Routine)}
    (h : found'.map (fun x => (x.1, v.routine x.2)) = found.map fun x => (x.1, v.routine x.2))
    {u u' : SourceUnit} (hu : v.unit u' = v.unit u) :
    v.unit (found'.foldl (fun u x => u.attach x.1 x.2) u')
      = v.unit (found.foldl (fun u x => u.attach x.1 x.2) u) := by
  induction found generalizing found' u u' with
  | nil =>
    obtain rfl := List.map_eq_nil_iff.1 h
    exact hu
  | cons x found ih =>
    obtain ⟨x', found', rfl, hx, hfound⟩ := List.map_eq_cons_iff.1 h
    obtain ⟨howner, hr⟩ := Prod.mk.inj hx
    rw [List.foldl_cons, List.foldl_cons, howner]
    exact ih hfound (attach_eq hu hr x.1)

/-- **The units of a text and of its mask look the same** in a view in which their trees agree. -/
theorem ofTree_eq {tree tree' : SyntaxTree} (hroot : tree'.root = tree.root.relabel Token.masked)
    (h : v.Agrees src src' tree.root) (fallback : Text) :
    v.unit (SourceUnit.ofTree src' tree' fallback)
      = v.unit (SourceUnit.ofTree src tree fallback) := by
  have hdeclared (kind : NodeKind) (n : Tree) (hn : n ∈ SourceUnit.declarations kind tree) :
      v.Agrees src src' n := h.member hn
  have hname : SourceUnit.nameIn tree' fallback = SourceUnit.nameIn tree fallback := by
    rw [SourceUnit.nameIn, declarations_relabel hroot, List.map_map, SourceUnit.nameIn]
    congr 4
    funext n
    rw [Function.comp_apply, Tree.tokens_relabel, ← List.map_drop, Source.dottedName_masked]
  have huses : (SourceUnit.declarations .usesClause tree').flatMap Source.usedUnits
      = (SourceUnit.declarations .usesClause tree).flatMap Source.usedUnits := by
    rw [declarations_relabel hroot, List.flatMap_map]
    exact List.flatMap_congr fun n _ => Source.usedUnits_masked n
  have hclasses : ((SourceUnit.declarations .typeDecl tree').filterMap
        (Source.ofText src').class?).map v.classDecl
      = ((SourceUnit.declarations .typeDecl tree).filterMap (Source.ofText src).class?).map
      v.classDecl := by
    rw [declarations_relabel hroot, List.filterMap_map, List.map_filterMap, List.map_filterMap]
    exact List.filterMap_congr fun n hn => class?_eq (hdeclared _ n hn)
  have hroutines :
      ((SourceUnit.declarations .routineDecl tree').filterMap (Source.ofText src').routine?).map
          (fun x => (x.1, v.routine x.2))
        = ((SourceUnit.declarations .routineDecl tree).filterMap (Source.ofText src).routine?).map
          fun x => (x.1, v.routine x.2) := by
    rw [declarations_relabel hroot, List.filterMap_map, List.map_filterMap, List.map_filterMap]
    exact List.filterMap_congr fun n hn => routine?_eq (hdeclared _ n hn)
  -- What is attached looks the same, and so does the unit to which it is attached.
  refine foldl_attach_eq hroutines ?_
  rw [unit, unit, SourceUnit.mk.injEq]
  exact ⟨hname, huses, hclasses, rfl⟩

end View

/-! ## Units -/

/-- Where the mask leaves a text **undisturbed**, as far as declarations and statements are
cut from it: it changes nothing in types and parameters, and nothing outside string literals
in simple statements. -/
structure Undisturbed (src : Text) (tree : SyntaxTree) : Prop where
  declared : ∀ n ∈ tree.root :: tree.root.descendants,
    n.kind? = some .typeRef ∨ n.kind? = some .formalParams → n.text (Mask.mask src) = n.text src
  stated : ∀ n ∈ tree.root :: tree.root.descendants, n.kind? = some .simple →
    SimpleForm.emptied false (Text.trim (n.text (Mask.mask src)))
      = SimpleForm.emptied false (Text.trim (n.text src))

/-- Cuts that are undisturbed agree in the surface. -/
theorem agrees_surface {src : Text} {tree : SyntaxTree} (h : Undisturbed src tree) :
    View.surface.Agrees src (Mask.mask src) tree.root := by
  intro n hn
  rw [View.NodeAgrees]
  split
  next hkind => exact .inr (h.declared n hn (.inl hkind))
  next hkind => exact .inr (h.declared n hn (.inr hkind))
  next hkind => exact SimpleForm.bare_ofText (h.stated n hn hkind)
  next => exact trivial

/-- In names alone all cuts agree. -/
theorem agrees_names (src : Text) (tree : SyntaxTree) :
    View.names.Agrees src (Mask.mask src) tree.root := by
  intro n _
  rw [View.NodeAgrees]
  split
  · exact .inl fun _ _ => rfl
  · exact .inl fun _ _ => rfl
  · rfl
  · exact trivial

namespace BuiltUnit

/-- A text that can be read as tokens gives the unit of its tree. -/
theorem ofSource_tree {src : Text} {tokens : List Token} (h : Token.lex src = .ok tokens)
    (fallback : Text) :
    ofSource src fallback .tree = .ok ⟨SourceUnit.ofTree src (Token.parse tokens) fallback, .tree,
      (Token.parse tokens).errors.map .parse⟩ := by
  have htree : SyntaxTree.ofText src = .ok (Token.parse tokens) := by rw [SyntaxTree.ofText, h]; rfl
  unfold ofSource
  simp only [htree]

/-- **Comments and string contents reach the declared surface only where it is cut from the
text.** The names that are declared, and how statements are nested, are those of the masked text;
and so is the whole surface, with types, parameters and the kinds of statements, if the mask
leaves the text undisturbed there. -/
theorem surface_ofSource_mask {src : Text} {tokens : List Token} (h : Token.lex src = .ok tokens)
    (fallback : Text) :
    ∃ built built', ofSource src fallback .tree = .ok built
      ∧ ofSource (Mask.mask src) fallback .tree = .ok built'
      ∧ View.names.unit built'.unit = View.names.unit built.unit
      ∧ (Undisturbed src (Token.parse tokens) →
        View.surface.unit built'.unit = View.surface.unit built.unit) := by
  have hroot := root_parse_masked tokens
  have hmask : Token.lex (Mask.mask src) = .ok (tokens.map Token.masked) := by
    rw [Mask.mask_eq]
    exact Token.lexFrom_maskText 0 src tokens h
  refine ⟨_, _, ofSource_tree h fallback, ofSource_tree hmask fallback, ?_, ?_⟩
  · exact View.ofTree_eq hroot (agrees_names src _) fallback
  · intro hundisturbed
    exact View.ofTree_eq hroot (agrees_surface hundisturbed) fallback

/-- A text with a `;` in a comment and a `:=` in a string literal, neither of which disturbs it. -/
theorem surface_ofSource_mask_literal :
    ∃ built built',
      ofSource "procedure P(a:T);begin\x7b;\x7df(':=')end;".toList [] .tree = .ok built
      ∧ ofSource (Mask.mask "procedure P(a:T);begin\x7b;\x7df(':=')end;".toList) [] .tree
        = .ok built'
      ∧ View.surface.unit built'.unit = View.surface.unit built.unit := by
  have hlex : Token.lex "procedure P(a:T);begin\x7b;\x7df(':=')end;".toList
      = .ok [⟨.keyword .kwProcedure, 0, 9⟩, ⟨.ident ['P'], 10, 11⟩, ⟨.symbol .lParen, 11, 12⟩,
        ⟨.ident ['a'], 12, 13⟩, ⟨.symbol .colon, 13, 14⟩, ⟨.ident ['T'], 14, 15⟩,
        ⟨.symbol .rParen, 15, 16⟩, ⟨.symbol .semi, 16, 17⟩, ⟨.keyword .kwBegin, 17, 22⟩,
        ⟨.ident ['f'], 25, 26⟩, ⟨.symbol .lParen, 26, 27⟩, ⟨.str [':', '='], 27, 31⟩,
        ⟨.symbol .rParen, 31, 32⟩, ⟨.keyword .kwEnd, 32, 35⟩, ⟨.symbol .semi, 35, 36⟩,
        ⟨.eof, 36, 36⟩] := by
    with_unfolding_all rfl
  obtain ⟨built, built', hbuilt, hbuilt', -, hsurface⟩ := surface_ofSource_mask hlex []
  refine ⟨built, built', hbuilt, hbuilt', hsurface ?_⟩
  have hroot :
      (Token.parse [⟨.keyword .kwProcedure, 0, 9⟩, ⟨.ident ['P'], 10, 11⟩,
        ⟨.symbol .lParen, 11, 12⟩, ⟨.ident ['a'], 12, 13⟩, ⟨.symbol .colon, 13, 14⟩,
        ⟨.ident ['T'], 14, 15⟩, ⟨.symbol .rParen, 15, 16⟩, ⟨.symbol .semi, 16, 17⟩,
        ⟨.keyword .kwBegin, 17, 22⟩, ⟨.ident ['f'], 25, 26⟩, ⟨.symbol .lParen, 26, 27⟩,
        ⟨.str [':', '='], 27, 31⟩, ⟨.symbol .rParen, 31, 32⟩, ⟨.keyword .kwEnd, 32, 35⟩,
        ⟨.symbol .semi, 35, 36⟩, ⟨.eof, 36, 36⟩]).root
      = .node .unit 0 36 [.node .routineDecl 0 36
          [ .node .routineHeading 0 17 [.leaf ⟨.keyword .kwProcedure, 0, 9⟩,
            .leaf ⟨.ident ['P'], 10, 11⟩,
            .node .formalParams 11 16
            [.leaf ⟨.symbol .lParen, 11, 12⟩, .leaf ⟨.ident ['a'], 12, 13⟩,
              .leaf ⟨.symbol .colon, 13, 14⟩, .leaf ⟨.ident ['T'], 14, 15⟩,
              .leaf ⟨.symbol .rParen, 15, 16⟩], .leaf ⟨.symbol .semi, 16, 17⟩],
              .node .compound 17 35 [.leaf ⟨.keyword .kwBegin, 17, 22⟩,
                .node .simple 25 32 [.leaf ⟨.ident ['f'], 25, 26⟩, .leaf ⟨.symbol .lParen, 26, 27⟩,
                  .leaf ⟨.str [':', '='], 27, 31⟩, .leaf ⟨.symbol .rParen, 31, 32⟩],
                  .leaf ⟨.keyword .kwEnd, 32, 35⟩], .leaf ⟨.symbol .semi, 35, 36⟩]] := by
    with_unfolding_all rfl
  constructor
  all_goals
    rw [hroot]
    simp only [Tree.descendants, Tree.descendantsOf]
    decide +kernel

/-- In the parameters of a routine a **comment is read as text**: a `;` in it
begins another parameter. -/
theorem parameters_of_comment :
    (ofSource
          "unit U; interface procedure P(a \x7b; b\x7d: Integer); implementation end.".toList
          [] .tree).toOption.map
        (fun built => built.unit.procedures.map Routine.parameters)
      = some [[⟨"a \x7b".toList, []⟩, ⟨"b\x7d".toList, "Integer".toList⟩]]
    ∧ (ofSource
          (Mask.mask
            "unit U; interface procedure P(a \x7b; b\x7d: Integer); implementation end.".toList)
          [] .tree).toOption.map
        (fun built => built.unit.procedures.map Routine.parameters)
      = some [[⟨"a".toList, "Integer".toList⟩]] := by
  decide +kernel

end BuiltUnit

end PascalAtlas
