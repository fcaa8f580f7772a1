import PascalAtlas.Proofs.Forest

/-!
# A grammar of statements

The statements of the language as a grammar is usually written: which lists of tokens are
statements, and which tree belongs to each. It is stated without the parser, so that the parser
can be measured by it.

Expressions and simple statements have no structure here. They are **stretches** of tokens, about
which only their brackets and their ends matter: brackets are balanced, and outside brackets there
is no token at which the stretch would be over. Trees are given as **sketches**, which say
everything about a tree but the offsets of its nodes.
-/

namespace PascalAtlas

/-! ## Sketches -/

/-- The **sketch** of a tree: the kinds of its nodes, how they are nested, and its tokens. -/
inductive Sketch where
  | leaf (token : Token)
  | node (kind : NodeKind) (children : List Sketch)

namespace Tree

mutual

/-- A tree without the offsets of its nodes. -/
def sketch : Tree → Sketch
  | .leaf t => .leaf t
  | .node kind _ _ children => .node kind (sketchOf children)

/-- The sketches of some trees. -/
def sketchOf : List Tree → List Sketch
  | [] => []
  | t :: ts => t.sketch :: sketchOf ts

end

/-- The sketches of two lists are those of the first and then those of the second. -/
@[simp] theorem sketchOf_append (F G : List Tree) :
    sketchOf (F ++ G) = sketchOf F ++ sketchOf G := by
  induction F with
  | nil => rfl
  | cons t ts ih => rw [List.cons_append, sketchOf, sketchOf, ih, List.cons_append]

/-- Leaves are their own sketches. -/
@[simp] theorem sketchOf_leaves (ts : List Token) : sketchOf (ts.map .leaf) = ts.map .leaf := by
  induction ts with
  | nil => rfl
  | cons t ts ih => rw [List.map_cons, sketchOf, ih, sketch, List.map_cons]

/-- The sketch of a node does not know its offsets. -/
@[simp] theorem sketch_ofChildren (kind : NodeKind) (F : List Tree) (offset : Nat) :
    (ofChildren kind F offset).sketch = .node kind (sketchOf F) := by
  unfold ofChildren
  repeat' split
  all_goals rfl

/-- The first sketch is that of the first tree. -/
theorem sketchOf_eq_cons {F : List Tree} {o : Sketch} {os : List Sketch}
    (h : sketchOf F = o :: os) : ∃ t ts, F = t :: ts ∧ t.sketch = o ∧ sketchOf ts = os := by
  cases F with
  | nil => cases h
  | cons t ts =>
    rw [sketchOf, List.cons.injEq] at h
    exact ⟨t, ts, rfl, h⟩

/-- No tree but the leaves themselves has the sketch of leaves. -/
theorem eq_leaves_of_sketchOf {F : List Tree} {ts : List Token} (h : sketchOf F = ts.map .leaf) :
    F = ts.map .leaf := by
  induction ts generalizing F with
  | nil =>
    cases F with
    | nil => rfl
    | cons t F => cases h
  | cons t ts ih =>
    obtain ⟨u, us, rfl, hu, hus⟩ := sketchOf_eq_cons h
    rw [ih hus, List.map_cons]
    cases u with
    | leaf token => rw [sketch] at hu; rw [Sketch.leaf.inj hu]
    | node kind start stop children => cases hu

end Tree

/-! ## Stretches of tokens -/

/-- The kinds at which a statement is over. -/
def terminators : List TokenKind :=
  [.symbol .semi, .keyword .kwEnd, .keyword .kwElse, .keyword .kwUntil, .keyword .kwExcept,
   .keyword .kwFinally]

/-- The words that begin a statement with a structure of its own. -/
def statementWords : List TokenKind :=
  [.keyword .kwBegin, .keyword .kwIf, .keyword .kwWhile, .keyword .kwFor, .keyword .kwWith,
   .keyword .kwCase, .keyword .kwRepeat, .keyword .kwTry, .keyword .kwAsm]

/-- The kinds that open a bracket. -/
def opening : List TokenKind := [.symbol .lParen, .symbol .lBracket]

/-- The kinds that close a bracket. -/
def closing : List TokenKind := [.symbol .rParen, .symbol .rBracket]

/-- Tokens with **balanced brackets**, of kinds that are `ok` outside brackets. A round bracket may
be closed by a square one. -/
inductive Balanced : (TokenKind → Prop) → List Token → Prop
  | nil {ok : TokenKind → Prop} : Balanced ok []
  | token {ok : TokenKind → Prop} {t : Token} {ts : List Token} (heof : t.kind ≠ .eof)
      (hopen : t.kind ∉ opening) (hclose : t.kind ∉ closing) (hok : ok t.kind)
      (after : Balanced ok ts) : Balanced ok (t :: ts)
  | group {ok : TokenKind → Prop} {o c : Token} {ts us : List Token} (hopen : o.kind ∈ opening)
      (hok : ok o.kind) (inside : Balanced (fun _ => True) ts) (hclose : c.kind ∈ closing)
      (after : Balanced ok us) : Balanced ok (o :: (ts ++ c :: us))

/-- **Stretches.** Some tokens, at least one, with balanced brackets; outside brackets no token ends
a statement or is one of the `stops`. -/
structure Stretch (stops : List TokenKind) (ts : List Token) : Prop where
  ne_nil : ts ≠ []
  balanced : Balanced (fun k => k ∉ terminators ∧ k ∉ stops) ts

/-! ## Derivations -/

/-- What can be derived. -/
inductive Phrase where
  /-- A statement, which is not empty. -/
  | statement
  /-- A list of statements between `begin` and `end`. -/
  | block
  /-- Statements with a `;` between any two of them. -/
  | sequence
  /-- A sequence, or nothing. -/
  | list
  /-- The arms of a `case`, each closed by a `;`, and after them perhaps `else` and a list. -/
  | arms

/-- The node that stands for an expression. -/
def Sketch.expr (ts : List Token) : Sketch :=
  .node .expr (ts.map .leaf)

/-- The statements that are a word, an expression, `do` and a block. -/
def headedWords : List (TokenKind × NodeKind) :=
  [(.keyword .kwWhile, .whileStmt), (.keyword .kwFor, .forStmt), (.keyword .kwWith, .withStmt)]

/-- **Derivations.** `Derives phrase ts F` says that the tokens `ts` are such a phrase, and that `F`
are the sketches of its trees. -/
inductive Derives : Phrase → List Token → List Sketch → Prop
  | simple {ts : List Token} (run : Stretch [] ts)
      (hfirst : ∀ t ∈ ts.head?, t.kind ∉ statementWords) :
    Derives .statement ts [.node .simple (ts.map .leaf)]
  | compound {ts : List Token} {F : List Sketch} (body : Derives .block ts F) :
    Derives .statement ts F
  | ifThen {w t : Token} {c ts : List Token} {F : List Sketch} (hw : w.kind = .keyword .kwIf)
      (hc : Stretch [.keyword .kwThen] c) (ht : t.kind = .keyword .kwThen)
      (yes : Derives .block ts F) :
    Derives .statement (w :: (c ++ t :: ts))
      [.node .ifStmt (.leaf w :: .expr c :: .leaf t :: F)]
  | ifElse {w t e : Token} {c ts us : List Token} {F G : List Sketch}
      (hw : w.kind = .keyword .kwIf) (hc : Stretch [.keyword .kwThen] c)
      (ht : t.kind = .keyword .kwThen) (yes : Derives .block ts F) (he : e.kind = .keyword .kwElse)
      (no : Derives .block us G) :
    Derives .statement (w :: (c ++ t :: (ts ++ e :: us)))
      [.node .ifStmt (.leaf w :: .expr c :: .leaf t :: (F ++ .leaf e :: G))]
  | headed {w d : Token} {kind : NodeKind} {c ts : List Token} {F : List Sketch}
      (hw : (w.kind, kind) ∈ headedWords) (hc : Stretch [.keyword .kwDo] c)
      (hd : d.kind = .keyword .kwDo) (body : Derives .block ts F) :
    Derives .statement (w :: (c ++ d :: ts)) [.node kind (.leaf w :: .expr c :: .leaf d :: F)]
  | repeatUntil {w u : Token} {ts c : List Token} {F : List Sketch}
      (hw : w.kind = .keyword .kwRepeat)
      (body : Derives .list ts F) (hu : u.kind = .keyword .kwUntil) (hc : Stretch [] c) :
    Derives .statement (w :: (ts ++ u :: c))
      [.node .repeatStmt (.leaf w :: (F ++ [.leaf u, .expr c]))]
  | tryExcept {w x e : Token} {ts us : List Token} {F G : List Sketch}
      (hw : w.kind = .keyword .kwTry)
      (body : Derives .list ts F) (hx : x.kind = .keyword .kwExcept) (rescue : Derives .list us G)
      (hon : ∀ t ∈ us.head?, t.kind.isWord "on".toList = false) (he : e.kind = .keyword .kwEnd) :
    Derives .statement (w :: (ts ++ x :: (us ++ [e])))
      [.node .tryStmt (.leaf w :: (F ++ .leaf x :: (G ++ [.leaf e])))]
  | tryFinally {w x e : Token} {ts us : List Token} {F G : List Sketch}
      (hw : w.kind = .keyword .kwTry)
      (body : Derives .list ts F) (hx : x.kind = .keyword .kwFinally) (cleanup : Derives .list us G)
      (he : e.kind = .keyword .kwEnd) :
    Derives .statement (w :: (ts ++ x :: (us ++ [e])))
      [.node .tryStmt (.leaf w :: (F ++ .leaf x :: (G ++ [.leaf e])))]
  | caseOf {w o e : Token} {c ts : List Token} {F : List Sketch} (hw : w.kind = .keyword .kwCase)
      (hc : Stretch [.keyword .kwOf] c) (ho : o.kind = .keyword .kwOf) (arms : Derives .arms ts F)
      (he : e.kind = .keyword .kwEnd) :
    Derives .statement (w :: (c ++ o :: (ts ++ [e])))
      [.node .caseStmt (.leaf w :: .expr c :: .leaf o :: (F ++ [.leaf e]))]
  | block {b e : Token} {ts : List Token} {F : List Sketch} (hb : b.kind = .keyword .kwBegin)
      (body : Derives .list ts F) (he : e.kind = .keyword .kwEnd) :
    Derives .block (b :: (ts ++ [e])) [.node .compound (.leaf b :: (F ++ [.leaf e]))]
  | empty : Derives .list [] []
  | list {ts : List Token} {F : List Sketch} (body : Derives .sequence ts F) : Derives .list ts F
  | one {ts : List Token} {F : List Sketch} (first : Derives .statement ts F) :
    Derives .sequence ts F
  | more {s : Token} {ts us : List Token} {F G : List Sketch} (first : Derives .statement ts F)
      (hs : s.kind = .symbol .semi) (others : Derives .sequence us G) :
    Derives .sequence (ts ++ s :: us) (F ++ .leaf s :: G)
  | noArm : Derives .arms [] []
  | otherwise {w : Token} {ts : List Token} {F : List Sketch} (hw : w.kind = .keyword .kwElse)
      (body : Derives .list ts F) : Derives .arms (w :: ts) (.leaf w :: F)
  | arm {m s : Token} {c ts us : List Token} {F G : List Sketch} (hc : Stretch [.symbol .colon] c)
      (hm : m.kind = .symbol .colon) (body : Derives .block ts F) (hs : s.kind = .symbol .semi)
      (others : Derives .arms us G) :
    Derives .arms (c ++ m :: (ts ++ s :: us))
      (.node .caseArm (.expr c :: .leaf m :: F) :: .leaf s :: G)

/-! ## How phrases begin -/

/-- Tokens that begin with one that neither ends a statement nor is the end of the tokens. -/
def Begins (ts : List Token) : Prop :=
  ∃ t us, ts = t :: us ∧ t.kind ∉ terminators ∧ t.kind ≠ .eof

theorem Begins.ne_nil {ts : List Token} (h : Begins ts) : ts ≠ [] := by
  obtain ⟨t, us, rfl, -⟩ := h
  exact List.cons_ne_nil _ _

/-- More tokens do not change how a list begins. -/
theorem Begins.append {ts us : List Token} (h : Begins ts) : Begins (ts ++ us) := by
  obtain ⟨t, vs, rfl, ht⟩ := h
  exact ⟨t, vs ++ us, rfl, ht⟩

theorem begins_keyword {t : Token} {ts : List Token} {word : Keyword} (ht : t.kind = .keyword word)
    (hword : .keyword word ∉ terminators) : Begins (t :: ts) :=
  ⟨t, ts, rfl, ht ▸ hword, by simp [ht]⟩

/-- A stretch is not empty and begins with no token that would end it. -/
theorem Stretch.begins {stops : List TokenKind} {ts : List Token} (h : Stretch stops ts) :
    Begins ts := by
  have hbalanced := h.balanced
  cases hbalanced with
  | nil => exact absurd rfl h.ne_nil
  | token heof _ _ hok _ => exact ⟨_, _, rfl, hok.1, heof⟩
  | group hopen hok _ _ _ =>
    refine ⟨_, _, rfl, hok.1, fun heof => ?_⟩
    rw [heof] at hopen
    exact absurd hopen (by decide)

/-- Blocks, statements and sequences are not empty, and do not begin with a token that ends a
statement. -/
theorem Derives.begins {phrase : Phrase} {ts : List Token} {F : List Sketch}
    (h : Derives phrase ts F) :
    match phrase with
    | .statement | .block | .sequence => Begins ts
    | .list => ts = [] ∨ Begins ts
    | .arms => True := by
  induction h with
  | simple run _ => exact run.begins
  | compound _ ih => exact ih
  | ifThen hw => exact begins_keyword hw (by decide)
  | ifElse hw => exact begins_keyword hw (by decide)
  | headed hw =>
    simp only [headedWords, List.mem_cons, Prod.mk.injEq, List.not_mem_nil, or_false] at hw
    rcases hw with ⟨hw, -⟩ | ⟨hw, -⟩ | ⟨hw, -⟩ <;> exact begins_keyword hw (by decide)
  | repeatUntil hw => exact begins_keyword hw (by decide)
  | tryExcept hw => exact begins_keyword hw (by decide)
  | tryFinally hw => exact begins_keyword hw (by decide)
  | caseOf hw => exact begins_keyword hw (by decide)
  | block hb => exact begins_keyword hb (by decide)
  | empty => exact .inl rfl
  | list _ ih => exact .inr ih
  | one _ ih => exact ih
  -- What begins a longer sequence is its first statement.
  | more _ _ _ ih => exact ih.append
  | noArm => trivial
  | otherwise => trivial
  | arm => trivial

end PascalAtlas
