import PascalAtlas.Proofs.Yield

/-!
# The parser finds every derivation

What the grammar of statements derives, the parser reads without an error, and the tree it builds
has the sketch of the derivation. Nothing is searched or taken back on the way: before each token
there is one step to take, and the argument is that it is always the step of the derivation.

Where a phrase ends, it is what may **follow** it that decides. An expression is followed by the
word that its place calls for, a list of statements by a word that closes it, and a statement by one
of these or a `;`. An `else` follows no statement, so that a conditional without one is never taken
for one that has it. There is one lemma for each way to derive a phrase, and the main result is an
induction on derivations.
-/

namespace PascalAtlas

/-! ## The statements of the grammar -/

namespace Grammar

open Step

variable {ts us c : List Token} {F G : List Sketch} {P : TokenKind → Prop} {slack : Nat}

/-- The words that close a list of statements. -/
def closers : List TokenKind :=
  [.keyword .kwEnd, .keyword .kwUntil, .keyword .kwExcept, .keyword .kwFinally]

/-- What can **follow a statement**: a `;`, or the word that closes the list. An `else` cannot,
since a branch of a conditional is a block. -/
def FollowsStatement (k : TokenKind) : Prop :=
  k ∈ .symbol .semi :: closers

/-- What follows a statement ends it. -/
theorem FollowsStatement.terminator {k : TokenKind} (h : FollowsStatement k) : k ∈ terminators := by
  have hall : ∀ k ∈ TokenKind.symbol .semi :: closers, k ∈ terminators := by decide
  exact hall k h

/-- An `else` does not follow a statement, it belongs to one. -/
theorem FollowsStatement.ne_else {k : TokenKind} (h : FollowsStatement k) :
    k ≠ .keyword .kwElse := by
  rintro rfl
  exact absurd h (by unfold FollowsStatement; decide)

/-! ### Expressions -/

/-- An expression is read up to the word that its place calls for. -/
theorem yields_expression {stops : List TokenKind} (hstops : stops.all TokenKind.textless = true)
    (hc : Stretch stops c) (hfollow : ∀ k, P k → k ∈ terminators ∨ k ∈ stops) :
    Yields rules slack (expression stops) c [.expr c] P :=
  (yields_take hstops hc hfollow).node

/-- A word, an expression and the word that stops it, with which a rule begins. -/
theorem yields_heading {w t : Token} {stop : TokenKind} {next : Step} (hw : w.kind ≠ .eof)
    (hstop : stop.textless = true ∧ stop ≠ .eof) (hc : Stretch [stop] c) (ht : t.kind = stop)
    (h : Yields rules 0 next ts F P) :
    Yields rules 1 (.seq .bump (.seq (expression [stop]) (.seq (expect stop) next)))
      (w :: (c ++ t :: ts)) (.leaf w :: .expr c :: .leaf t :: F) P := by
  have hstops : [stop].all TokenKind.textless = true := by simp [hstop.1]
  have hafter : Yields rules 0 (.seq (expect stop) next) (t :: ts) (.leaf t :: F) P :=
    h.after_expect ht hstop.2 (by decide)
  have hexpr : Yields rules 0 (expression [stop]) c [.expr c] (· ∈ [stop]) :=
    yields_expression hstops hc fun _ hk => .inr hk
  exact (hexpr.closed hafter (by simp [ht])).after_bump hw (by decide)

/-! ### Lists -/

/-- Whether a list of statements ends is told by the next token. -/
theorem answer_listEnd (stops : List TokenKind) (k : TokenKind) :
    (listEnd stops).answer? k = some (k.sameShape .eof || stops.any k.sameShape) := by
  have hany : (Test.any (stops.map .here)).answer? k = some (stops.any k.sameShape) := by
    induction stops with
    | nil => rfl
    | cons stop stops ih =>
      rw [List.map_cons, Test.any, Test.answer?, ih, Test.answer?, List.any_cons]
      cases k.sameShape stop <;> cases stops.any k.sameShape <;> rfl
  rw [listEnd, Test.answer?, hany, Test.eof, Test.answer?]
  cases k.sameShape .eof <;> cases stops.any k.sameShape <;> rfl

variable {stops : List TokenKind}

theorem answer_listEnd_stop {k : TokenKind} (hk : k ∈ stops) :
    (listEnd stops).answer? k = some true := by
  have hany : stops.any k.sameShape = true :=
    List.any_eq_true.2 ⟨k, hk, TokenKind.sameShape_self k⟩
  rw [answer_listEnd, hany, Bool.or_true]

/-- A list goes on before a token with which a statement can begin. -/
theorem answer_listEnd_begins (hstops : stops ⊆ closers) (hts : Begins ts) (rest : List Token) :
    (Test.not (listEnd stops)).answer? (headKind (ts ++ rest)) = some true := by
  obtain ⟨t, us, rfl, hterm, heof⟩ := hts
  have hclosers : ∀ k ∈ closers, k ∈ terminators ∧ k.textless = true := by decide
  have hend : t.kind.sameShape .eof = false := TokenKind.sameShape_of_ne heof rfl
  -- The words that close a list all end a statement, and the first token does not.
  have hany : stops.any t.kind.sameShape = false := by
    rw [List.any_eq_false]
    intro stop hstop hshape
    obtain ⟨hterm', htext⟩ := hclosers stop (hstops hstop)
    rw [TokenKind.eq_of_sameShape hshape htext] at hterm
    exact hterm hterm'
  show (Test.not (listEnd stops)).answer? t.kind = some true
  rw [Test.answer?, answer_listEnd, hend, hany]
  rfl

/-- The last statement of a list, behind which the list is closed. -/
theorem yields_last_round (hstops : stops ⊆ closers) (hts : ts ≠ [])
    (h : Yields rules 1 statement ts F FollowsStatement) :
    Yields rules 0 (statementRound stops) ts F (· ∈ stops) := by
  have hskip : Yields rules 0 (choose [(.symbol .semi, .bump), (listEnd stops, .skip)]
      (.report .separator)) [] [] (· ∈ stops) := by
    refine yields_skip.resolve fun rest hrest => ?_
    -- A `;` closes no list.
    have hsemi : headKind rest ≠ .symbol .semi := by
      intro hsemi
      exact absurd (hstops (hsemi ▸ hrest)) (by decide)
    show (choose _ _).resolve (headKind rest) = .skip
    rw [choose, Step.resolve, Test.symbol, Test.answer_here hsemi rfl]
    show (choose _ _).resolve (headKind rest) = .skip
    rw [choose, Step.resolve, answer_listEnd_stop hrest]
    rfl
  have hcall : Yields rules 0 (.call .statement) ts F FollowsStatement := .call h
  have hround : Yields rules 0 (statementRound stops) (ts ++ []) (F ++ []) (· ∈ stops) :=
    hcall.guarded.ifMoved hskip hts fun rest hrest => List.mem_cons_of_mem _ (hstops hrest)
  rwa [List.append_nil, List.append_nil] at hround

/-- A statement of a list, and the `;` behind it. -/
theorem yields_round {s : Token} (hs : s.kind = .symbol .semi) (hts : ts ≠ [])
    (h : Yields rules 1 statement ts F FollowsStatement) :
    Yields rules 0 (statementRound stops) (ts ++ [s]) (F ++ [.leaf s]) P := by
  have hbump : Yields rules 0 (choose [(.symbol .semi, .bump), (listEnd stops, .skip)]
      (.report .separator)) [s] [.leaf s] P := by
    exact (yields_bump (by simp [hs])).before hs rfl
  have hcall : Yields rules 0 (.call .statement) ts F FollowsStatement := .call h
  refine hcall.guarded.ifMoved hbump hts fun rest _ => ?_
  show FollowsStatement s.kind
  rw [hs]
  exact List.mem_cons_self ..

/-- The list is over before a word that closes it. -/
theorem yields_statements_nil : Yields rules 0 (statements stops) [] [] (· ∈ stops) := by
  rw [statements_eq]
  refine yields_loop_done fun k hk => ?_
  rw [Test.answer?, answer_listEnd_stop hk]
  rfl

/-- A list of one statement. -/
theorem yields_statements_one (hstops : stops ⊆ closers) (hts : Begins ts)
    (h : Yields rules 1 statement ts F FollowsStatement) :
    Yields rules 0 (statements stops) ts F (· ∈ stops) := by
  have hloop : Yields rules 0 (statements stops) (ts ++ []) (F ++ []) (· ∈ stops) :=
    (yields_last_round hstops hts.ne_nil h).loop_round yields_statements_nil hts.ne_nil
      (answer_listEnd_begins hstops hts) fun _ hrest => hrest
  rwa [List.append_nil, List.append_nil] at hloop

/-- A statement, a `;` and more statements. -/
theorem yields_statements_more {s : Token} (hstops : stops ⊆ closers) (hts : Begins ts)
    (h : Yields rules 1 statement ts F FollowsStatement) (hs : s.kind = .symbol .semi)
    (hothers : Yields rules 0 (statements stops) us G (· ∈ stops)) :
    Yields rules 0 (statements stops) (ts ++ s :: us) (F ++ .leaf s :: G) (· ∈ stops) := by
  have hround : Yields rules 0 (statementRound stops) (ts ++ [s]) (F ++ [.leaf s]) fun _ => True :=
    yields_round hs hts.ne_nil h
  have hloop := hround.loop_round hothers (by simp) (answer_listEnd_begins hstops hts.append)
    fun _ _ => trivial
  rwa [List.append_assoc, List.append_assoc] at hloop

/-! ### Blocks -/

/-- A block. -/
theorem yields_compound {b e : Token} (hb : b.kind = .keyword .kwBegin)
    (hlist : Yields rules 0 (statements [.keyword .kwEnd]) ts F (· ∈ [.keyword .kwEnd]))
    (he : e.kind = .keyword .kwEnd) :
    Yields rules 1 compound (b :: (ts ++ [e]))
      [.node .compound (.leaf b :: (F ++ [.leaf e]))] P := by
  have hclose : Yields rules 0 (expect (.keyword .kwEnd)) [e] [.leaf e] P :=
    yields_expect he (by simp)
  exact ((hlist.closed hclose (by simp [he])).after_expect hb (by simp) (by decide)).node

/-! ### The other statements -/

/-- Before every other token stands a simple statement. -/
theorem resolve_statement_simple {k : TokenKind} (hword : k ∉ statementWords)
    (hterm : k ∉ terminators) (heof : k ≠ .eof) :
    statement.resolve k = .node .simple (.take (.expression [])) := by
  cases k with
  | keyword word =>
    cases word
    all_goals first
      | rfl
      | exact absurd (by decide) hword
      | exact absurd (by decide) hterm
  | symbol sign =>
    cases sign
    all_goals first
      | rfl
      | exact absurd (by decide) hterm
  | eof => exact absurd rfl heof
  | _ => rfl

/-- A simple statement, which begins with no word of another one. -/
theorem yields_simple (hts : Stretch [] ts) (hfirst : ∀ t ∈ ts.head?, t.kind ∉ statementWords) :
    Yields rules 1 statement ts [.node .simple (ts.map .leaf)] FollowsStatement := by
  obtain ⟨t, us, rfl, hterm, heof⟩ := hts.begins
  refine (yields_take rfl hts fun k hk => .inl hk.terminator).node.resolve fun rest _ => ?_
  exact resolve_statement_simple (hfirst t rfl) hterm heof

/-- A conditional without `else`: what follows is never an `else`. -/
theorem yields_ifThen {w t : Token} (hw : w.kind = .keyword .kwIf)
    (hc : Stretch [.keyword .kwThen] c) (ht : t.kind = .keyword .kwThen)
    (hyes : Yields rules 1 statement ts F fun _ => True) :
    Yields rules 1 statement (w :: (c ++ t :: ts))
      [.node .ifStmt (.leaf w :: .expr c :: .leaf t :: F)] FollowsStatement := by
  have hcall : Yields rules 0 (.call .statement) ts F fun _ => True := .call hyes
  -- The branch is a block and ends by itself; that there is no `else` is seen from what follows.
  have hno : Yields rules 0 (when (.keyword .kwElse) (all [.bump, .call .statement])) [] []
      FollowsStatement :=
    yields_when_not rfl fun _ hk => hk.ne_else
  have hbody : Yields rules 0 (.seq (.call .statement)
      (when (.keyword .kwElse) (all [.bump, .call .statement]))) (ts ++ []) (F ++ [])
      FollowsStatement :=
    hcall.seq hno (by simp) fun _ _ => trivial
  rw [List.append_nil, List.append_nil] at hbody
  exact (yields_heading (by simp [hw]) ⟨rfl, by simp⟩ hc ht hbody).node.before hw rfl

/-- A conditional with both branches. -/
theorem yields_ifElse {w t e : Token} (hw : w.kind = .keyword .kwIf)
    (hc : Stretch [.keyword .kwThen] c) (ht : t.kind = .keyword .kwThen)
    (hyes : Yields rules 1 statement ts F fun _ => True) (he : e.kind = .keyword .kwElse)
    (hno : Yields rules 1 statement us G fun _ => True) :
    Yields rules 1 statement (w :: (c ++ t :: (ts ++ e :: us)))
      [.node .ifStmt (.leaf w :: .expr c :: .leaf t :: (F ++ .leaf e :: G))] P := by
  have hyes' : Yields rules 0 (.call .statement) ts F fun _ => True := .call hyes
  have hno' : Yields rules 0 (.call .statement) us G P :=
    .call (hno.mono (Nat.le_refl _) fun _ _ => trivial)
  have helse : Yields rules 0 (when (.keyword .kwElse) (all [.bump, .call .statement]))
      (e :: us) (.leaf e :: G) P :=
    (hno'.after_bump (by simp [he]) (by decide)).before he rfl
  have hbody := hyes'.seq helse (by simp) fun _ _ => trivial
  exact (yields_heading (by simp [hw]) ⟨rfl, by simp⟩ hc ht hbody).node.before hw rfl

/-- A loop or a `with`, up to its `do` and the statement behind it. -/
theorem yields_headed {w d : Token} {kind : NodeKind} (hw : (w.kind, kind) ∈ headedWords)
    (hc : Stretch [.keyword .kwDo] c) (hd : d.kind = .keyword .kwDo)
    (hbody : Yields rules 1 statement ts F fun _ => True) :
    Yields rules 1 statement (w :: (c ++ d :: ts))
      [.node kind (.leaf w :: .expr c :: .leaf d :: F)] P := by
  have hcall : Yields rules 0 (.call .statement) ts F P :=
    .call (hbody.mono (Nat.le_refl _) fun _ _ => trivial)
  have hwords : ∀ p ∈ headedWords, p.1 ≠ .eof ∧ statement.resolve p.1 = headed p.2 := by
    simp only [headedWords, List.forall_mem_cons]
    exact ⟨⟨by simp, rfl⟩, ⟨by simp, rfl⟩, ⟨by simp, rfl⟩, by simp⟩
  obtain ⟨heof, hresolve⟩ := hwords _ hw
  exact (yields_heading heof ⟨rfl, by simp⟩ hc hd hcall).node.before rfl hresolve

/-- A `repeat` loop, up to the condition behind its `until`. -/
theorem yields_repeatUntil {w u : Token} (hw : w.kind = .keyword .kwRepeat)
    (hlist : Yields rules 0 (statements [.keyword .kwUntil]) ts F (· ∈ [.keyword .kwUntil]))
    (hu : u.kind = .keyword .kwUntil) (hc : Stretch [] c) :
    Yields rules 1 statement (w :: (ts ++ u :: c))
      [.node .repeatStmt (.leaf w :: (F ++ [.leaf u, .expr c]))] FollowsStatement := by
  have hexpr : Yields rules 0 (expression []) c [.expr c] FollowsStatement :=
    yields_expression rfl hc fun _ hk => .inl hk.terminator
  have huntil : Yields rules 0 (.seq (expect (.keyword .kwUntil)) (expression [])) (u :: c)
      [.leaf u, .expr c] FollowsStatement :=
    hexpr.after_expect hu (by simp) (by decide)
  have hbody := hlist.closed huntil (by simp [hu])
  exact (hbody.after_bump (by simp [hw]) (by decide)).node.before hw rfl

/-- What comes after the protected statements of a `try`, up to its `end`. -/
def afterProtected : Step :=
  choose
    [(.keyword .kwExcept,
      all [.bump, .loop (.word "on".toList) handler, when (.keyword .kwElse) .bump,
        statements [.keyword .kwEnd]]),
     (.keyword .kwFinally, all [.bump, statements [.keyword .kwEnd]])]
    (.fail .handler)

/-- A protected block with its handler. -/
theorem yields_try {w x e : Token} (hw : w.kind = .keyword .kwTry)
    (hbody : Yields rules 0 (statements [.keyword .kwExcept, .keyword .kwFinally]) ts F
      (· ∈ [.keyword .kwExcept, .keyword .kwFinally]))
    (hx : x.kind ∈ [TokenKind.keyword .kwExcept, .keyword .kwFinally])
    (hsecond : Yields rules 0 afterProtected (x :: us) (.leaf x :: G) (· ∈ [.keyword .kwEnd]))
    (he : e.kind = .keyword .kwEnd) :
    Yields rules 1 statement (w :: (ts ++ x :: (us ++ [e])))
      [.node .tryStmt (.leaf w :: (F ++ .leaf x :: (G ++ [.leaf e])))] P := by
  have hclose : Yields rules 0 (expect (.keyword .kwEnd)) [e] [.leaf e] P :=
    yields_expect he (by simp)
  have hend : Yields rules 0 (.seq afterProtected (expect (.keyword .kwEnd))) (x :: (us ++ [e]))
      (.leaf x :: (G ++ [.leaf e])) P :=
    hsecond.closed hclose (by simp [he])
  have hall := hbody.closed hend hx
  exact (hall.after_bump (by simp [hw]) (by decide)).node.before hw rfl

/-- The part behind a `finally`. -/
theorem yields_finally {x : Token} (hx : x.kind = .keyword .kwFinally)
    (hlist : Yields rules 0 (statements [.keyword .kwEnd]) us G (· ∈ [.keyword .kwEnd])) :
    Yields rules 0 afterProtected (x :: us) (.leaf x :: G) (· ∈ [.keyword .kwEnd]) := by
  exact (hlist.after_bump (by simp [hx]) (by decide)).before hx rfl

/-- Behind `except` there is no handler to read if the list does not begin with `on`. -/
theorem yields_except {x : Token} (hx : x.kind = .keyword .kwExcept)
    (hlist : Yields rules 0 (statements [.keyword .kwEnd]) us G (· ∈ [.keyword .kwEnd]))
    (hus : us = [] ∨ Begins us) (hon : ∀ t ∈ us.head?, t.kind.isWord "on".toList = false) :
    Yields rules 0 afterProtected (x :: us) (.leaf x :: G) (· ∈ [.keyword .kwEnd]) := by
  -- The list begins with a statement, or it is empty and the `end` comes next.
  have hfirst : ∀ rest, headKind rest ∈ [TokenKind.keyword .kwEnd] →
      (headKind (us ++ rest)).isWord "on".toList = false
      ∧ headKind (us ++ rest) ≠ .keyword .kwElse := by
    intro rest hrest
    rcases hus with rfl | ⟨t, vs, rfl, hterm, -⟩
    · rw [List.nil_append, List.mem_singleton.1 hrest]
      exact ⟨rfl, by simp⟩
    · refine ⟨hon t rfl, fun helse => hterm ?_⟩
      have hkind : t.kind = .keyword .kwElse := helse
      rw [hkind]
      decide
  have hloop : Yields rules 0 (.loop (.word "on".toList) handler) [] []
      (·.isWord "on".toList = false) := by
    refine yields_loop_done fun k hk => ?_
    rw [Test.answer?, hk]
  have helse : Yields rules 0 (when (.keyword .kwElse) .bump) [] [] (· ≠ .keyword .kwElse) :=
    yields_when_not rfl fun _ hk => hk
  have hrest := helse.seq hlist (by simp) fun rest hrest => (hfirst rest hrest).2
  have hlists := hloop.seq hrest (by simp) fun rest hrest => (hfirst rest hrest).1
  exact (hlists.after_bump (by simp [hx]) (by decide)).before hx rfl

/-! ### Arms -/

/-- One of the arms of a `case`, a `;` between them, or the `else` with its list. -/
def armItem : Step :=
  choose
    [(.keyword .kwElse, all [.bump, statements [.keyword .kwEnd]]), (.symbol .semi, .bump)]
    caseArm

/-- The loop over the arms of a `case`. -/
def arms : Step :=
  .loop (.not (.any [.keyword .kwEnd, .eof])) (.ifMoved armItem .skip (.fail .caseStatement))

theorem yields_arms_nil : Yields rules 0 arms [] [] (· ∈ [.keyword .kwEnd]) := by
  refine yields_loop_done fun k hk => ?_
  rw [List.mem_singleton.1 hk]
  rfl

/-- One round of the loop, and then the rounds that are left. -/
theorem yields_arms_round {t : Token} {Q : TokenKind → Prop}
    (ht : t.kind ≠ .keyword .kwEnd ∧ t.kind ≠ .eof) (hitem : Yields rules 0 armItem (t :: ts) F Q)
    (hothers : Yields rules 0 arms us G (· ∈ [.keyword .kwEnd]))
    (hfollow : ∀ rest, headKind rest ∈ [TokenKind.keyword .kwEnd] → Q (headKind (us ++ rest))) :
    Yields rules 0 arms (t :: (ts ++ us)) (F ++ G) (· ∈ [.keyword .kwEnd]) := by
  have hround : Yields rules 0 (.ifMoved armItem .skip (.fail .caseStatement)) (t :: ts ++ [])
      (F ++ []) Q :=
    hitem.ifMoved yields_skip (List.cons_ne_nil _ _) fun _ hrest => hrest
  rw [List.append_nil, List.append_nil] at hround
  refine hround.loop_round hothers (List.cons_ne_nil _ _) (fun rest => ?_) hfollow
  show (Test.not (.any [.keyword .kwEnd, .eof])).answer? t.kind = some true
  simp only [Test.any, Test.answer?, Test.keyword, Test.eof, TokenKind.sameShape_of_ne ht.1 rfl,
    TokenKind.sameShape_of_ne ht.2 rfl]
  rfl

/-- The `else` of a `case`, with a list of statements. -/
theorem yields_otherwise {w : Token} (hw : w.kind = .keyword .kwElse)
    (hlist : Yields rules 0 (statements [.keyword .kwEnd]) ts F (· ∈ [.keyword .kwEnd])) :
    Yields rules 0 arms (w :: ts) (.leaf w :: F) (· ∈ [.keyword .kwEnd]) := by
  have hitem : Yields rules 0 armItem (w :: ts) (.leaf w :: F) (· ∈ [.keyword .kwEnd]) :=
    (hlist.after_bump (by simp [hw]) (by decide)).before hw rfl
  have hall := yields_arms_round (by simp [hw]) hitem yields_arms_nil fun _ hrest => hrest
  rwa [List.append_nil, List.append_nil] at hall

/-- One arm of a `case`, and the arms behind it. -/
theorem yields_arm {m s : Token} (hc : Stretch [.symbol .colon] c) (hm : m.kind = .symbol .colon)
    (hbody : Yields rules 1 statement ts F fun _ => True) (hs : s.kind = .symbol .semi)
    (hothers : Yields rules 0 arms us G (· ∈ [.keyword .kwEnd])) :
    Yields rules 0 arms (c ++ m :: (ts ++ s :: us))
      (.node .caseArm (.expr c :: .leaf m :: F) :: .leaf s :: G) (· ∈ [.keyword .kwEnd]) := by
  have hcall : Yields rules 0 (.call .statement) ts F fun _ => True := .call hbody
  have hcolon : Yields rules 0 (.seq (expect (.symbol .colon)) (.call .statement)) (m :: ts)
      (.leaf m :: F) fun _ => True :=
    hcall.after_expect hm (by simp) (by decide)
  have hexpr : Yields rules 0 (expression [.symbol .colon]) c [.expr c] (· ∈ [.symbol .colon]) :=
    yields_expression rfl hc fun _ hk => .inr hk
  have harm : Yields rules 0 caseArm (c ++ m :: ts) [.node .caseArm (.expr c :: .leaf m :: F)]
      fun _ => True :=
    (hexpr.closed hcolon (by simp [hm])).node
  -- The `;` behind the arm is a round of its own.
  have hsemi : Yields rules 0 armItem [s] [.leaf s] fun _ => True :=
    (yields_bump (by simp [hs])).before hs rfl
  have hrest := yields_arms_round (by simp [hs]) hsemi hothers fun _ _ => trivial
  -- The label does not begin with a token that the loop would take for the end, an `else` or a `;`.
  obtain ⟨t, vs, rfl, hterm, heof⟩ := hc.begins
  have hfirst : t.kind ≠ .keyword .kwEnd ∧ t.kind ≠ .keyword .kwElse ∧ t.kind ≠ .symbol .semi := by
    simp only [terminators, List.mem_cons, not_or] at hterm
    exact ⟨hterm.2.1, hterm.2.2.1, hterm.1⟩
  have hitem : Yields rules 0 armItem (t :: (vs ++ m :: ts))
      [.node .caseArm (.expr (t :: vs) :: .leaf m :: F)] fun _ => True := by
    refine harm.before rfl ?_
    simp only [armItem, choose, Step.resolve, Test.keyword, Test.symbol,
      Test.answer_here hfirst.2.1 rfl, Test.answer_here hfirst.2.2 rfl]
    rfl
  have hall := yields_arms_round ⟨hfirst.1, heof⟩ hitem hrest fun _ _ => trivial
  rw [List.append_assoc] at hall
  exact hall

/-- A `case` with all its arms. -/
theorem yields_caseOf {w o e : Token} (hw : w.kind = .keyword .kwCase)
    (hc : Stretch [.keyword .kwOf] c) (ho : o.kind = .keyword .kwOf)
    (harms : Yields rules 0 arms ts F (· ∈ [.keyword .kwEnd])) (he : e.kind = .keyword .kwEnd) :
    Yields rules 1 statement (w :: (c ++ o :: (ts ++ [e])))
      [.node .caseStmt (.leaf w :: .expr c :: .leaf o :: (F ++ [.leaf e]))] P := by
  have hclose : Yields rules 0 (expect (.keyword .kwEnd)) [e] [.leaf e] P :=
    yields_expect he (by simp)
  have hbody := harms.closed hclose (by simp [he])
  exact (yields_heading (by simp [hw]) ⟨rfl, by simp⟩ hc ho hbody).node.before hw rfl

/-! ### Derivations -/

/-- What the parser makes of a phrase. A list is read in whatever place it stands, that is, up to
any of the words that can close a list there. -/
def Reads (phrase : Phrase) (ts : List Token) (F : List Sketch) : Prop :=
  match phrase with
  | .statement => Yields rules 1 statement ts F FollowsStatement
  | .block => Yields rules 1 statement ts F fun _ => True
  | .sequence | .list =>
    ∀ stops, stops ⊆ closers → Yields rules 0 (statements stops) ts F (· ∈ stops)
  | .arms => Yields rules 0 arms ts F (· ∈ [.keyword .kwEnd])

/-- **Every derivation is found by the parser.** One rule for each way to derive a phrase. -/
theorem reads_of_derives {phrase : Phrase} (h : Derives phrase ts F) : Reads phrase ts F := by
  have hend : [TokenKind.keyword .kwEnd] ⊆ closers := by decide
  induction h with
  | simple run hfirst => exact yields_simple run hfirst
  | compound _ ih =>
    -- A block ends with its `end`, so it may stand before anything, and not only before
    -- what ends a statement.
    have hblock : Yields rules 1 statement _ _ fun _ => True := ih
    exact hblock.mono (Nat.le_refl _) fun _ _ => trivial
  | ifThen hw hc ht _ ih => exact yields_ifThen hw hc ht ih
  | ifElse hw hc ht _ he _ ihYes ihNo => exact yields_ifElse hw hc ht ihYes he ihNo
  | headed hw hc hd _ ih => exact yields_headed hw hc hd ih
  | repeatUntil hw _ hu hc ih => exact yields_repeatUntil hw (ih _ (by decide)) hu hc
  | tryExcept hw _ hx rescue hon he ihBody ihRescue =>
    refine yields_try hw (ihBody _ (by decide)) (by simp [hx]) ?_ he
    exact yields_except hx (ihRescue _ hend) rescue.begins hon
  | tryFinally hw _ hx _ he ihBody ihCleanup =>
    refine yields_try hw (ihBody _ (by decide)) (by simp [hx]) ?_ he
    exact yields_finally hx (ihCleanup _ hend)
  | caseOf hw hc ho _ he ih => exact yields_caseOf hw hc ho ih he
  | block hb _ he ih =>
    have hblock : Yields rules 1 statement _ _ fun _ => True :=
      (yields_compound hb (ih _ hend) he).before hb rfl
    exact hblock
  | empty => exact fun stops _ => yields_statements_nil
  | list _ ih => exact ih
  | one first ih => exact fun stops hstops => yields_statements_one hstops first.begins ih
  | more first hs _ ihFirst ihOthers =>
    exact fun stops hstops =>
      yields_statements_more hstops first.begins ihFirst hs (ihOthers stops hstops)
  | noArm => exact yields_arms_nil
  | otherwise hw _ ih => exact yields_otherwise hw (ih _ hend)
  | arm hc hm _ hs _ ihBody ihOthers => exact yields_arm hc hm ihBody hs ihOthers

/-! ## The body of a routine -/

/-- No declarations stand before the `begin` of a body. -/
theorem yields_routineBody {b e : Token} (hb : b.kind = .keyword .kwBegin) (h : Derives .list ts F)
    (he : e.kind = .keyword .kwEnd) {next : List Token} {G : List Sketch}
    (hsemi : Yields rules 0 optionalSemi next G P) :
    Yields rules 0 routineBody (b :: (ts ++ [e]) ++ next)
      (.node .compound (.leaf b :: (F ++ [.leaf e])) :: G) P := by
  have hlist : Yields rules 0 (statements [.keyword .kwEnd]) ts F (· ∈ [.keyword .kwEnd]) :=
    reads_of_derives h _ (by decide)
  have hcompound : Yields rules 0 compound (b :: (ts ++ [e]))
      [.node .compound (.leaf b :: (F ++ [.leaf e]))] fun _ => True :=
    (yields_compound hb hlist he).mono (Nat.zero_le _) fun _ hk => hk
  have hblock : Yields rules 0
      (choose [(.keyword .kwBegin, compound), (.keyword .kwAsm, assembler)] .skip)
      (b :: (ts ++ [e])) [.node .compound (.leaf b :: (F ++ [.leaf e]))] fun _ => True :=
    hcompound.before hb rfl
  have hdecls : Yields rules 0 (.loop (.or sectionWord routineStart)
      (.branch sectionWord localDecls (.call .routine))) [] [] (· = .keyword .kwBegin) := by
    refine yields_loop_done ?_
    rintro k rfl
    rfl
  exact hdecls.seq (hblock.seq hsemi (by simp) fun _ _ => trivial) (by simp) fun _ _ => hb

/-- From any state of the parser, a body and the tokens `next` behind it are read in one run. -/
theorem run_routineBody {b e : Token} {next rest : List Token} {s : State} {n : Nat}
    (h : Derives .list ts F) (hb : b.kind = .keyword .kwBegin) (he : e.kind = .keyword .kwEnd)
    (hsemi : Yields rules 0 optionalSemi next (next.map .leaf) P) (hrest : P (headKind rest))
    (hs : s.rest = b :: (ts ++ e :: (next ++ rest))) (hframes : s.frames ≠ [])
    (hn : s.rest.length < n) :
    ∃ tree, tree.sketch = .node .compound (.leaf b :: (F ++ [.leaf e])) ∧
      routineBody.run (Rule.run rules n) s = .ok (s.past rest (tree :: next.map .leaf)) := by
  have hs' : s.rest = b :: (ts ++ [e]) ++ next ++ rest := by
    rw [hs]
    simp
  obtain ⟨trees, hsketch, hrun⟩ := yields_routineBody hb h he hsemi n s rest hs' hrest hframes hn
  obtain ⟨tree, leaves, rfl, htree, hleaves⟩ := Tree.sketchOf_eq_cons hsketch
  rw [Tree.eq_leaves_of_sketchOf hleaves] at hrun
  exact ⟨tree, htree, hrun.run_eq n (Nat.le_refl _)⟩

/-- **Every derivation is read as the body of a routine.** From any state of the parser, with
enough calls allowed, a list of statements between `begin` and `end` is read without an error, and
the tree that is added has the sketch of the derivation. Of what comes after the `end`, only a `;`
is taken in addition. -/
theorem routineBody_complete {b e : Token} {L rest : List Token} {F : List Sketch} {s : State}
    {n : Nat} (hL : Derives .list L F) (hb : b.kind = .keyword .kwBegin)
    (he : e.kind = .keyword .kwEnd) (hs : s.rest = b :: (L ++ e :: rest))
    (hframes : s.frames ≠ []) (hn : s.rest.length < n) :
    ∃ tree s', routineBody.run (Rule.run rules n) s = .ok s' ∧ s'.errors = s.errors ∧
      tree.sketch = .node .compound (.leaf b :: (F ++ [.leaf e])) ∧
      ((headKind rest ≠ .symbol .semi ∧ s'.rest = rest ∧ s'.frames = Frame.grow [tree] s.frames) ∨
        ∃ d, d.kind = .symbol .semi ∧ rest = d :: s'.rest ∧
          s'.frames = Frame.grow [tree, .leaf d] s.frames) := by
  by_cases hsemi : headKind rest = .symbol .semi
  · cases rest with
    | nil => cases hsemi
    | cons d rest =>
      have hd : d.kind = .symbol .semi := hsemi
      have hnext : Yields rules 0 optionalSemi [d] [.leaf d] fun _ => True :=
        (yields_bump (by simp [hd])).before hd rfl
      obtain ⟨tree, htree, hrun⟩ := run_routineBody hL hb he hnext trivial hs hframes hn
      exact ⟨tree, _, hrun, rfl, htree, .inr ⟨d, hd, rfl, rfl⟩⟩
  · have hnext : Yields rules 0 optionalSemi [] [] (· ≠ .symbol .semi) :=
      yields_when_not rfl fun _ hk => hk
    obtain ⟨tree, htree, hrun⟩ := run_routineBody hL hb he hnext hsemi hs hframes hn
    exact ⟨tree, _, hrun, rfl, htree, .inl ⟨hsemi, rfl, rfl⟩⟩

/-- A conditional whose condition has a `;` in brackets, as in
`begin if (;) then begin x end else begin end end`. -/
theorem routineBody_complete_conditional :
    ∃ L F, Derives .list L F ∧ L.length = 11 ∧
      ∃ tree s', routineBody.run (Rule.run rules 14) (State.initial
          (⟨.keyword .kwBegin, 0, 5⟩ :: (L ++ [⟨.keyword .kwEnd, 45, 48⟩]))) = .ok s' ∧
        s'.errors = [] ∧
        tree.sketch = .node .compound
          (.leaf ⟨.keyword .kwBegin, 0, 5⟩ :: (F ++ [.leaf ⟨.keyword .kwEnd, 45, 48⟩])) ∧
        ((headKind [] ≠ .symbol .semi ∧ s'.rest = [] ∧
            s'.frames = Frame.grow [tree] [⟨.unit, []⟩]) ∨
          ∃ d, d.kind = .symbol .semi ∧ [] = d :: s'.rest ∧
            s'.frames = Frame.grow [tree, .leaf d] [⟨.unit, []⟩]) := by
  have hinside : Balanced (fun _ => True) [⟨.symbol .semi, 10, 11⟩] :=
    .token (by simp) (by decide) (by decide) trivial .nil
  have hcondition : Stretch [.keyword .kwThen]
      [⟨.symbol .lParen, 9, 10⟩, ⟨.symbol .semi, 10, 11⟩, ⟨.symbol .rParen, 11, 12⟩] :=
    ⟨by simp, .group (by decide) (by decide) hinside (by decide) .nil⟩
  have hname : Stretch [] [⟨.ident "x".toList, 24, 25⟩] :=
    ⟨by simp, .token (by simp) (by decide) (by decide) (by decide) .nil⟩
  have hyes := Derives.block (b := ⟨.keyword .kwBegin, 18, 23⟩) (e := ⟨.keyword .kwEnd, 26, 29⟩) rfl
    (.list (.one (.simple hname (by simp; decide)))) rfl
  have hno := Derives.block (b := ⟨.keyword .kwBegin, 35, 40⟩) (e := ⟨.keyword .kwEnd, 41, 44⟩) rfl
    .empty rfl
  have hL :=
    Derives.list (.one (.ifElse (w := ⟨.keyword .kwIf, 6, 8⟩) (t := ⟨.keyword .kwThen, 13, 17⟩)
      (e := ⟨.keyword .kwElse, 30, 34⟩) rfl hcondition rfl hyes rfl hno))
  exact ⟨_, _, hL, rfl, routineBody_complete hL rfl rfl rfl (List.cons_ne_nil _ _) (by decide)⟩

end Grammar

end PascalAtlas
