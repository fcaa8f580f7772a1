import PascalAtlas.Proofs.Derivation

/-!
# Steps that yield sketches

How to show that a step reads given tokens and builds a given tree. A step **yields** sketches
over some tokens (`Step.Yields`) if it reads exactly these tokens wherever they come next and
something that may follow comes after them. For each way to build a step there is one rule
that says what it yields.

Two facts carry these rules. A scan over a stretch of tokens passes all of it and stops at what
comes next (`Scan.run_expression`), where what comes next ends a statement or is the word that the
place calls for. And the kind of the next token decides the branches on the way (`Step.resolve`): so
which step is taken is computed, and never a question of the state.
-/

namespace PascalAtlas

/-! ## Stretches are scanned to their end -/

namespace TokenKind

@[simp] theorem sameShape_self (k : TokenKind) : k.sameShape k = true := by
  cases k <;> simp [sameShape]

/-- Kinds without a text have the same shape only if they are equal. -/
theorem sameShape_of_ne {k k' : TokenKind} (hne : k ≠ k') (htext : k'.textless = true) :
    k.sameShape k' = false := by
  rw [Bool.eq_false_iff]
  intro hshape
  exact hne (eq_of_sameShape hshape htext)

/-- Among kinds without text, having the shape of one is being one. -/
theorem any_sameShape {stops : List TokenKind} (hstops : stops.all textless = true)
    (k : TokenKind) :
    stops.any k.sameShape = true ↔ k ∈ stops := by
  rw [List.any_eq_true]
  constructor
  · rintro ⟨k', hk', hshape⟩
    rw [eq_of_sameShape hshape (List.all_eq_true.1 hstops k' hk')]
    exact hk'
  · intro hk
    exact ⟨k, hk, sameShape_self k⟩

end TokenKind

/-- Before a token of another kind, a test for a kind without text fails. -/
theorem Test.answer_here {k kind : TokenKind} (hne : k ≠ kind) (htext : kind.textless = true) :
    (here kind).answer? k = some false := by
  rw [answer?, TokenKind.sameShape_of_ne hne htext]

namespace Scan

/-- The kinds that end a statement. -/
theorem isTerminator_iff (k : TokenKind) : isTerminator k = true ↔ k ∈ terminators := by
  cases k with
  | keyword word => cases word <;> decide
  | symbol sign => cases sign <;> decide
  | _ => simp [isTerminator, terminators]

/-- A scan that goes on at a token passes it. -/
theorem run_go {scan : Scan} {n m : Nesting} {t : Token} {ts : List Token} (ht : t.kind ≠ .eof)
    (hgo : scan n t.kind (headKind ts) = .go m) :
    scan.run n (t :: ts) = ((scan.run m ts).1 + 1, (scan.run m ts).2) := by
  rw [run, if_neg ht, hgo]

/-- Where the scan of an expression goes on. -/
theorem expression_go {stops : List TokenKind} (hstops : stops.all TokenKind.textless = true)
    {n : Nesting} {k : TokenKind} (next : TokenKind)
    (hk : n.brackets = 0 → k ∉ terminators ∧ k ∉ stops) :
    expression stops n k next = .go { n with brackets := bracketsAfter n.brackets k } := by
  rw [expression, if_neg]
  rw [Bool.and_eq_true, Bool.or_eq_true, decide_eq_true_eq, isTerminator_iff,
    TokenKind.any_sameShape hstops]
  rintro ⟨hzero, hterm | hstop⟩
  · exact (hk hzero).1 hterm
  · exact (hk hzero).2 hstop

/-- An opening bracket counts one more. -/
theorem bracketsAfter_opening {k : TokenKind} (hk : k ∈ opening) (n : Nat) :
    bracketsAfter n k = n + 1 ∧ k ≠ .eof := by
  simp only [opening, List.mem_cons, List.not_mem_nil, or_false] at hk
  rcases hk with rfl | rfl <;> exact ⟨rfl, by simp⟩

/-- A closing bracket counts one less. -/
theorem bracketsAfter_closing {k : TokenKind} (hk : k ∈ closing) (n : Nat) :
    bracketsAfter n k = n - 1 ∧ k ≠ .eof := by
  simp only [closing, List.mem_cons, List.not_mem_nil, or_false] at hk
  rcases hk with rfl | rfl <;> exact ⟨rfl, by simp⟩

/-- No other kind counts. -/
theorem bracketsAfter_other {k : TokenKind} (hopen : k ∉ opening) (hclose : k ∉ closing) (n : Nat) :
    bracketsAfter n k = n := by
  simp only [opening, closing, List.mem_cons, List.not_mem_nil, or_false, not_or] at hopen hclose
  unfold bracketsAfter
  split <;> simp_all

/-- Balanced tokens are passed, and the nesting behind them is the nesting before them. Inside
brackets no token stops the scan, so there every kind is `ok`. -/
theorem run_balanced {stops : List TokenKind} (hstops : stops.all TokenKind.textless = true)
    {ok : TokenKind → Prop} {ts : List Token} (h : Balanced ok ts) :
    ∀ n rest, (n.brackets = 0 → ∀ k, ok k → k ∉ terminators ∧ k ∉ stops) →
      ((expression stops).run n (ts ++ rest)).1
        = ((expression stops).run n rest).1 + ts.length := by
  induction h with
  | nil => exact fun n rest _ => rfl
  | @token ok t ts heof hopen hclose hok _ ih =>
    intro n rest hn
    have hgo := expression_go hstops (headKind (ts ++ rest)) fun hzero => hn hzero t.kind hok
    rw [bracketsAfter_other hopen hclose] at hgo
    rw [List.cons_append, run_go heof hgo]
    show ((expression stops).run n (ts ++ rest)).1 + 1 = _
    rw [ih n rest hn, List.length_cons, Nat.add_assoc]
  | @group ok o c ts us hopen hok _ hclose _ ihInside ihAfter =>
    intro n rest hn
    -- Past the opening bracket the scan is one deeper, and past the closing one it is back.
    let deeper : Nesting := { n with brackets := n.brackets + 1 }
    obtain ⟨hup, ho⟩ := bracketsAfter_opening hopen n.brackets
    obtain ⟨hdown, hc⟩ := bracketsAfter_closing hclose deeper.brackets
    have hdeep : deeper.brackets = 0 → ∀ k, k ∉ terminators ∧ k ∉ stops := by
      intro hzero
      exact absurd hzero (Nat.succ_ne_zero _)
    have hgo := expression_go hstops (headKind (ts ++ c :: us ++ rest)) fun hzero =>
      hn hzero o.kind hok
    rw [hup] at hgo
    have hback : expression stops deeper c.kind (headKind (us ++ rest)) = .go n := by
      rw [expression_go hstops _ fun hzero => hdeep hzero c.kind, hdown]
      rfl
    have hinside := ihInside deeper (c :: (us ++ rest)) fun hzero k _ => hdeep hzero k
    rw [List.cons_append, run_go ho hgo]
    show ((expression stops).run deeper (ts ++ c :: us ++ rest)).1 + 1 = _
    rw [List.append_assoc, List.cons_append, hinside, run_go hc hback]
    show ((expression stops).run n (us ++ rest)).1 + 1 + ts.length + 1 = _
    rw [ihAfter n rest hn, List.length_cons, List.length_append, List.length_cons]
    omega

/-- **The scan of an expression passes a stretch** and no more, where the next token stops it. -/
theorem run_expression {stops : List TokenKind} (hstops : stops.all TokenKind.textless = true)
    {ts rest : List Token} (h : Stretch stops ts)
    (hrest : headKind rest ∈ terminators ∨ headKind rest ∈ stops) :
    ((expression stops).run {} (ts ++ rest)).1 = ts.length := by
  rw [run_balanced hstops h.balanced {} rest fun _ k hk => hk]
  have hstop : ((expression stops).run {} rest).1 = 0 := by
    cases rest with
    | nil => rfl
    | cons t us =>
      by_cases ht : t.kind = .eof
      · rw [run, if_pos ht]
      · have hexpr : expression stops {} t.kind (headKind us) = .stop := by
          rw [expression, if_pos]
          rw [Bool.and_eq_true, Bool.or_eq_true, isTerminator_iff, TokenKind.any_sameShape hstops]
          exact ⟨rfl, hrest⟩
        rw [run, if_neg ht, hexpr]
  rw [hstop, Nat.zero_add]

end Scan

/-! ## The state past some tokens -/

namespace State

/-- The state in which the tokens up to `rest` have been consumed and some trees added. -/
def past (rest : List Token) (trees : List Tree) (s : State) : State :=
  { s with rest := rest, frames := Frame.grow trees s.frames }

/-- Past some tokens and past others is past both. -/
theorem past_past (s : State) (r r' : List Token) (F G : List Tree) :
    (s.past r F).past r' G = s.past r' (F ++ G) := by
  simp only [past, Frame.grow_grow]

/-- Where nothing is read the state stays. -/
theorem past_nil {s : State} {rest : List Token} (hs : s.rest = rest) : s.past rest [] = s := by
  rw [past, Frame.grow_nil_trees, ← hs]

/-- Consuming a stretch of tokens is going past it. -/
theorem advance_eq {s : State} {ts rest : List Token} (hs : s.rest = ts ++ rest) :
    s.advance ts.length = s.past rest (ts.map .leaf) := by
  rw [advance, push_eq, hs, List.take_left, List.drop_left]
  rfl

/-- A node that is closed has what was read since it was opened. -/
theorem closeNode_past {s : State} (hs : s.frames ≠ []) (kind : NodeKind) (rest : List Token)
    (trees : List Tree) :
    ∃ offset, ((s.openNode kind).past rest trees).closeNode
      = s.past rest [Tree.ofChildren kind trees offset] := by
  obtain ⟨f, fs, hfs⟩ := List.exists_cons_of_ne_nil hs
  refine ⟨((s.openNode kind).past rest trees).offset, ?_⟩
  simp [closeNode, past, openNode, Frame.grow, hfs]

end State

/-! ## The step before a token -/

namespace Step

/-- The step that is taken **before a token of a kind**, as far as the kind decides it. -/
def resolve (k : TokenKind) : Step → Step
  | .branch test yes no =>
    match test.answer? k with
    | some true => yes.resolve k
    | some false => no.resolve k
    | none => .branch test yes no
  | a => a

/-- The kind of the next token **decides the branches**. -/
theorem Runs.of_resolve {grammar : Rule → Step} {b : Nat} {s : State} {o : Outcome} {k : TokenKind}
    (hs : s.kind = k) (a : Step) (h : Runs grammar b (a.resolve k) s o) : Runs grammar b a s o := by
  induction a with
  | branch test yes no ihyes ihno =>
    rw [resolve] at h
    split at h
    next hanswer => exact .branch_yes (Test.holds_of_answer hs test true hanswer) (ihyes h)
    next hanswer => exact .branch_no (Test.holds_of_answer hs test false hanswer) (ihno h)
    next => exact h
  | _ => exact h

/-! ## Steps that yield sketches -/

/-- **What a step yields.** Wherever the tokens `ts` come next, and after them one of a kind that
may `follow`, the step succeeds, consumes `ts` and adds trees with the sketches `F`; it changes
nothing else, so it records no error.

The `slack` is 1 for a step with which a rule begins. Such a step calls nothing before it has
consumed a token, so it may begin with as many tokens as there were when the rule was called. -/
def Yields (grammar : Rule → Step) (slack : Nat) (a : Step) (ts : List Token) (F : List Sketch)
    (follow : TokenKind → Prop) : Prop :=
  ∀ b s rest, s.rest = ts ++ rest → follow (headKind rest) → s.frames ≠ [] →
    s.rest.length < b + slack →
    ∃ trees, Tree.sketchOf trees = F ∧ Runs grammar b a s (.ok (s.past rest trees))

section Yields

variable {grammar : Rule → Step} {slack slack' : Nat} {a c : Step} {ts us : List Token}
  {F G : List Sketch} {P Q : TokenKind → Prop} {t : Token}

/-- What may follow can be restricted, and slack given up. -/
theorem Yields.mono (h : Yields grammar slack a ts F Q) (hle : slack' ≤ slack)
    (hPQ : ∀ k, P k → Q k) : Yields grammar slack' a ts F P := by
  intro b s rest hs hfollow hframes hlen
  exact h b s rest hs (hPQ _ hfollow) hframes (by omega)

theorem yields_skip : Yields grammar slack .skip [] [] P := by
  intro b s rest hs _ _ _
  rw [List.nil_append] at hs
  refine ⟨[], rfl, ?_⟩
  rw [State.past_nil hs]
  exact .skip

/-- Consuming a token yields it as a leaf. -/
theorem yields_bump (ht : t.kind ≠ .eof) : Yields grammar slack .bump [t] [.leaf t] P := by
  intro b s rest hs _ _ _
  have hbump : s.bump = s.past rest [.leaf t] := State.bump_eq hs ht
  exact ⟨[.leaf t], rfl, hbump ▸ .bump⟩

/-- A stretch of tokens is taken whole. -/
theorem yields_take {stops : List TokenKind} (hstops : stops.all TokenKind.textless = true)
    (h : Stretch stops ts) (hfollow : ∀ k, P k → k ∈ terminators ∨ k ∈ stops) :
    Yields grammar slack (.take (.expression stops)) ts (ts.map .leaf) P := by
  intro b s rest hs hrest _ _
  refine ⟨ts.map .leaf, Tree.sketchOf_leaves ts, ?_⟩
  have hscan : ((Scan.expression stops).run {} s.rest).1 = ts.length := by
    rw [hs]
    exact Scan.run_expression hstops h (hfollow _ hrest)
  rw [← State.advance_eq hs, ← hscan]
  exact .take

/-- The step that the next token calls for is the one that counts. -/
theorem Yields.resolve (h : Yields grammar slack c ts F P)
    (hc : ∀ rest, P (headKind rest) → a.resolve (headKind (ts ++ rest)) = c) :
    Yields grammar slack a ts F P := by
  intro b s rest hs hfollow hframes hlen
  obtain ⟨trees, hsketch, hrun⟩ := h b s rest hs hfollow hframes hlen
  have hkind : s.kind = headKind (ts ++ rest) := by rw [State.kind, hs]
  refine ⟨trees, hsketch, .of_resolve hkind a ?_⟩
  rw [hc rest hfollow]
  exact hrun

/-- Before a token of a known kind, it is the step that this kind calls for. -/
theorem Yields.before {k : TokenKind} (h : Yields grammar slack c (t :: ts) F P) (ht : t.kind = k)
    (hc : a.resolve k = c) : Yields grammar slack a (t :: ts) F P := by
  refine h.resolve fun rest _ => ?_
  show a.resolve t.kind = c
  rw [ht, hc]

/-- Expecting a token that is there yields it as a leaf. -/
theorem yields_expect {kind : TokenKind} (ht : t.kind = kind) (hkind : kind ≠ .eof) :
    Yields grammar slack (expect kind) [t] [.leaf t] P := by
  refine (yields_bump (ht ▸ hkind)).before ht ?_
  rw [expect, Step.resolve, Test.answer?, TokenKind.sameShape_self]
  rfl

/-- What is optional is left out before another token. -/
theorem yields_when_not {kind : TokenKind} (htext : kind.textless = true)
    (hP : ∀ k, P k → k ≠ kind) :
    Yields grammar slack (when (.here kind) a) [] [] P := by
  refine yields_skip.resolve fun rest hrest => ?_
  show (when (.here kind) a).resolve (headKind rest) = .skip
  rw [when, Step.resolve, Test.answer_here (hP _ hrest) htext]
  rfl

/-- Two steps that yield, one after the other. Behind a first step that has consumed a token, the
second one needs no slack. -/
theorem Yields.two_runs (ha : Yields grammar slack a ts F Q) (hc : Yields grammar slack' c us G P)
    (hslack : slack ≤ slack' + ts.length)
    (hfollow : ∀ rest, P (headKind rest) → Q (headKind (us ++ rest))) {b : Nat} {s : State}
    {rest : List Token} (hs : s.rest = ts ++ us ++ rest) (hrest : P (headKind rest))
    (hframes : s.frames ≠ []) (hlen : s.rest.length < b + slack) :
    ∃ s₁ trees, Tree.sketchOf trees = F ++ G ∧ s₁.rest.length + ts.length = s.rest.length ∧
      Runs grammar b a s (.ok s₁) ∧ Runs grammar b c s₁ (.ok (s.past rest trees)) := by
  rw [List.append_assoc] at hs
  obtain ⟨trees, hF, hrun⟩ := ha b s (us ++ rest) hs (hfollow rest hrest) hframes hlen
  have hshorter : (us ++ rest).length + ts.length = s.rest.length := by
    have hsum : (ts ++ (us ++ rest)).length = ts.length + (us ++ rest).length := List.length_append
    rw [hs]
    omega
  have hlen' : (us ++ rest).length < b + slack' := by omega
  obtain ⟨trees', hG, hrun'⟩ := hc b (s.past (us ++ rest) trees) rest rfl hrest
    (Frame.grow_ne_nil hframes) hlen'
  rw [State.past_past] at hrun'
  refine ⟨_, trees ++ trees', ?_, hshorter, hrun, hrun'⟩
  rw [Tree.sketchOf_append, hF, hG]

/-- **One step after the other.** -/
theorem Yields.seq (ha : Yields grammar slack a ts F Q) (hc : Yields grammar slack' c us G P)
    (hslack : slack ≤ slack' + ts.length)
    (hfollow : ∀ rest, P (headKind rest) → Q (headKind (us ++ rest))) :
    Yields grammar slack (.seq a c) (ts ++ us) (F ++ G) P := by
  intro b s rest hs hrest hframes hlen
  obtain ⟨s₁, trees, hsketch, -, hrun, hrun'⟩ :=
    ha.two_runs hc hslack hfollow hs hrest hframes hlen
  exact ⟨trees, hsketch, .seq_ok hrun hrun'⟩

/-- A step that consumes, and then the one that is meant for that case. -/
theorem Yields.ifMoved {still : Step} (ha : Yields grammar slack a ts F Q)
    (hc : Yields grammar slack c us G P) (hts : ts ≠ [])
    (hfollow : ∀ rest, P (headKind rest) → Q (headKind (us ++ rest))) :
    Yields grammar slack (.ifMoved a c still) (ts ++ us) (F ++ G) P := by
  intro b s rest hs hrest hframes hlen
  obtain ⟨s₁, trees, hsketch, hshorter, hrun, hrun'⟩ :=
    ha.two_runs hc (Nat.le_add_right ..) hfollow hs hrest hframes hlen
  have hpos := List.length_pos_iff.2 hts
  have hconsumed : s₁.rest.length < s.rest.length := by omega
  exact ⟨trees, hsketch, .ifMoved_moved hrun hconsumed hrun'⟩

/-- **A round of a loop**, and then the loop again. -/
theorem Yields.loop_round {test : Test} (hround : Yields grammar slack a ts F Q)
    (hagain : Yields grammar slack (.loop test a) us G P) (hts : ts ≠ [])
    (htest : ∀ rest, test.answer? (headKind (ts ++ rest)) = some true)
    (hfollow : ∀ rest, P (headKind rest) → Q (headKind (us ++ rest))) :
    Yields grammar slack (.loop test a) (ts ++ us) (F ++ G) P := by
  intro b s rest hs hrest hframes hlen
  obtain ⟨s₁, trees, hsketch, hshorter, hrun, hrun'⟩ :=
    hround.two_runs hagain (Nat.le_add_right ..) hfollow hs hrest hframes hlen
  rw [List.append_assoc] at hs
  have hkind : s.kind = headKind (ts ++ (us ++ rest)) := by rw [State.kind, hs]
  have hholds := Test.holds_of_answer hkind test true (htest _)
  have hpos := List.length_pos_iff.2 hts
  have hconsumed : s₁.rest.length < s.rest.length := by omega
  exact ⟨trees, hsketch, .loop_round hholds hrun hconsumed hrun'⟩

/-- A token is consumed, and then a step goes on. -/
theorem Yields.after_bump (h : Yields grammar 0 c us G P) (ht : t.kind ≠ .eof)
    (hslack : slack ≤ 1) :
    Yields grammar slack (.seq .bump c) (t :: us) (.leaf t :: G) P := by
  have hbump : Yields grammar slack .bump [t] [.leaf t] fun _ => True := yields_bump ht
  exact hbump.seq h (by simpa using hslack) fun _ _ => trivial

/-- Behind an expected token the rest may yield what it yields with one token less of slack. -/
theorem Yields.after_expect {kind : TokenKind} (h : Yields grammar 0 c us G P) (ht : t.kind = kind)
    (hkind : kind ≠ .eof) (hslack : slack ≤ 1) :
    Yields grammar slack (.seq (expect kind) c) (t :: us) (.leaf t :: G) P := by
  have hexpect : Yields grammar slack (expect kind) [t] [.leaf t] fun _ => True :=
    yields_expect ht hkind
  exact hexpect.seq h (by simpa using hslack) fun _ _ => trivial

/-- What closes a phrase is the token that it has to be followed by. -/
theorem Yields.closed {stops : List TokenKind} (h : Yields grammar 0 a ts F (· ∈ stops))
    (hc : Yields grammar 0 c (t :: us) G P) (ht : t.kind ∈ stops) :
    Yields grammar 0 (.seq a c) (ts ++ t :: us) (F ++ G) P :=
  h.seq hc (Nat.zero_le _) fun _ _ => ht

/-- A node yields a node over what is yielded inside. -/
theorem Yields.node {kind : NodeKind} (h : Yields grammar slack a ts F P) :
    Yields grammar slack (.node kind a) ts [.node kind F] P := by
  intro b s rest hs hrest hframes hlen
  obtain ⟨trees, hF, hrun⟩ := h b (s.openNode kind) rest hs hrest (List.cons_ne_nil _ _) hlen
  obtain ⟨offset, hclose⟩ := State.closeNode_past hframes kind rest trees
  refine ⟨[Tree.ofChildren kind trees offset], ?_, hclose ▸ .node_ok hrun⟩
  rw [Tree.sketchOf, Tree.sketchOf, Tree.sketch_ofChildren, hF]

/-- Nothing is recovered where nothing fails. -/
theorem Yields.guarded {recovery : Scan} (h : Yields grammar slack a ts F P) :
    Yields grammar slack (.guarded recovery a) ts F P := by
  intro b s rest hs hrest hframes hlen
  obtain ⟨trees, hF, hrun⟩ := h b s rest hs hrest hframes hlen
  exact ⟨trees, hF, .guarded_ok hrun⟩

/-- A call begins a rule, so what the rule yields with slack, the call yields without. -/
theorem Yields.call {rule : Rule} (h : Yields grammar 1 (grammar rule) ts F P) :
    Yields grammar 0 (.call rule) ts F P := by
  intro b s rest hs hrest hframes hlen
  -- The rule runs with the number of tokens left at the call as its own bound.
  obtain ⟨trees, hF, hrun⟩ := h s.rest.length s rest hs hrest hframes (Nat.lt_succ_self _)
  exact ⟨trees, hF, .call hlen hrun⟩

/-- A loop is left where its test fails. -/
theorem yields_loop_done {test : Test} (htest : ∀ k, P k → test.answer? k = some false) :
    Yields grammar slack (.loop test a) [] [] P := by
  intro b s rest hs hrest _ _
  rw [List.nil_append] at hs
  have hkind : s.kind = headKind rest := by rw [State.kind, hs]
  refine ⟨[], rfl, ?_⟩
  rw [State.past_nil hs]
  exact .loop_done (Test.holds_of_answer hkind test false (htest _ hrest))

end Yields

end Step

end PascalAtlas
