import PascalAtlas.Proofs.Piece

/-!
# Steps that build pieces

When a step of the grammar turns the tokens of a piece into its trees (`Piece.Parses`). There is one
rule for each way to make a step, and it goes with a way to make a piece: a sequence of steps with a
sequence of pieces, a node with a node, a loop with a list.

What the step does next is decided by the tokens in front. `Step.facing` is the step that is left
when all tests at the front have been made; before known tokens it can be computed.
-/

namespace PascalAtlas

open Step (Runs)

/-! ## The step before known tokens -/

namespace Step

/-- The step that is taken **in a state**, once its tests have been made. -/
def facing (s : State) : Step → Step
  | .branch test yes no => if test.holds s then yes.facing s else no.facing s
  | a => a

/-- To run a step, run what is left of it when the tests at its front have been made. -/
theorem Runs.of_facing {grammar : Rule → Step} {b : Nat} {s : State} {o : Outcome} (a : Step)
    (h : Runs grammar b (a.facing s) s o) : Runs grammar b a s o := by
  induction a with
  | branch test yes no ihyes ihno =>
    rw [facing] at h
    cases htest : test.holds s with
    | true =>
      rw [if_pos htest] at h
      exact .branch_yes htest (ihyes h)
    | false =>
      rw [if_neg (by simp [htest])] at h
      exact .branch_no htest (ihno h)
  | _ => exact h

end Step

/-- A state in which declarations of a part of the unit are read: a node is open, the unit is not
closed, and no heading has said that it has no body. -/
structure State.Ready (part : UnitPart) (s : State) : Prop where
  frames : s.frames ≠ []
  part_eq : s.part = part
  bodiless : s.bodiless = false
  closed : s.closed = false

namespace State

variable {part : UnitPart} {s : State}

/-- A state stays ready when tokens have been consumed and trees added. -/
theorem Ready.past (h : s.Ready part) (rest : List Token) (F : List Tree) :
    (s.past rest F).Ready part :=
  ⟨Frame.grow_ne_nil h.frames, h.part_eq, h.bodiless, h.closed⟩

theorem Ready.openNode (h : s.Ready part) (kind : NodeKind) : (s.openNode kind).Ready part :=
  ⟨List.cons_ne_nil _ _, h.part_eq, h.bodiless, h.closed⟩

/-- A state in which two tokens of known kinds come next. What is tested in any such state is
tested in this one. -/
def before (part : UnitPart) (k k' : TokenKind) : State where
  rest := [⟨k, 0, 0⟩, ⟨k', 0, 0⟩]
  frames := []
  part := part
  lastStart := 0

/-- Of a ready state a test sees the part and the next two kinds, and nothing else. -/
theorem Ready.holds_eq (h : s.Ready part) (test : Test) :
    test.holds s = test.holds (before part s.kind s.kindAfter) := by
  induction test with
  | bodiless => exact h.bodiless
  | inInterface => rw [Test.holds, h.part_eq, Test.holds]; rfl
  | closed => exact h.closed
  | or a b iha ihb => rw [Test.holds, iha, ihb, Test.holds]
  | and a b iha ihb => rw [Test.holds, iha, ihb, Test.holds]
  | not a ih => rw [Test.holds, ih, Test.holds]
  | _ => rfl

/-- So these three say what is left of a step. -/
theorem Ready.facing_eq (h : s.Ready part) (a : Step) :
    a.facing s = a.facing (before part s.kind s.kindAfter) := by
  induction a with
  | branch test yes no ihyes ihno => rw [Step.facing, h.holds_eq, ihyes, ihno, Step.facing]
  | _ => rfl

end State

/-! ## Steps that do nothing -/

/-- Before two tokens of these kinds the step **does nothing**. -/
def Step.Idle (part : UnitPart) (a : Step) (k k' : TokenKind) : Prop :=
  ∀ b s, s.Ready part → s.kind = k → s.kindAfter = k' → Runs Grammar.rules b a s (.ok s)

namespace Step

variable {part : UnitPart} {a c : Step} {k k' : TokenKind}

/-- A step of which nothing is left is idle. -/
theorem idle_of_facing (h : a.facing (State.before part k k') = .skip) : a.Idle part k k' := by
  rintro b s hready rfl rfl
  refine .of_facing a ?_
  rw [hready.facing_eq, h]
  exact .skip

/-- A loop is idle where its test fails. -/
theorem idle_loop {test : Test} (h : test.holds (State.before part k k') = false) :
    (loop test a).Idle part k k' := by
  rintro b s hready rfl rfl
  refine .loop_done ?_
  rw [hready.holds_eq, h]

/-- A scan is idle where it stops at once. -/
theorem idle_take {scan : Scan} (h : scan {} k k' = .stop) : (take scan).Idle part k k' := by
  rintro b s hready rfl rfl
  have hnone : (scan.run {} s.rest).1 = 0 := by
    cases hs : s.rest with
    | nil => rfl
    | cons t ts =>
      rw [State.kind, State.kindAfter, hs, headKind, List.tail_cons] at h
      rw [Scan.run, h]
      split <;> rfl
  have hadvance : s.advance (scan.run {} s.rest).1 = s := by
    have hskip : s.advance [].length = _ := State.advance_eq (List.nil_append s.rest).symm
    rw [hnone]
    exact hskip.trans (State.past_nil rfl)
  have hrun : Runs Grammar.rules b (take scan) s (.ok (s.advance (scan.run {} s.rest).1)) := .take
  rwa [hadvance] at hrun

theorem idle_noteBodiless : (noteBodiless false).Idle part k k' := by
  intro b s hready _ _
  have hsame : { s with bodiless := false } = s := by rw [← hready.bodiless]
  have hrun : Runs Grammar.rules b (noteBodiless false) s (.ok { s with bodiless := false }) :=
    .noteBodiless
  rwa [hsame] at hrun

/-- Two idle steps are idle together. -/
theorem Idle.seq (ha : a.Idle part k k') (hc : c.Idle part k k') :
    (Step.seq a c).Idle part k k' := by
  intro b s hready hk hk'
  exact .seq_ok (ha b s hready hk hk') (hc b s hready hk hk')

end Step

namespace Piece

/-! ## Where a piece begins and ends -/

/-- The first tree of the piece begins where the piece begins. -/
def Starts (p : Piece) : Prop :=
  ∀ n, ∃ t, (p.trees n).head? = some t ∧ t.start = n

/-- The last tree of the piece ends where the piece ends. -/
def Stops (p : Piece) : Prop :=
  ∀ n, ∃ t, (p.trees n).getLast? = some t ∧ t.stop = n + p.size

/-- A token starts with itself. -/
theorem starts_token (kind : TokenKind) (spelling : Text) : (token kind spelling).Starts :=
  fun _ => ⟨_, rfl, rfl⟩

/-- So does a node with its first token. -/
theorem starts_node (kind : NodeKind) (p : Piece) : (node kind p).Starts :=
  fun _ => ⟨_, rfl, rfl⟩

theorem stops_token (kind : TokenKind) (spelling : Text) : (token kind spelling).Stops :=
  fun _ => ⟨_, rfl, rfl⟩

theorem stops_node (kind : NodeKind) (p : Piece) : (node kind p).Stops :=
  fun _ => ⟨_, rfl, rfl⟩

variable {p q : Piece}

/-- A piece starts as its first part does. -/
theorem Starts.append (h : p.Starts) (q : Piece) : (p.append q).Starts := by
  intro n
  obtain ⟨t, ht, hstart⟩ := h n
  exact ⟨t, by rw [trees_append, List.head?_append, ht, Option.some_or], hstart⟩

/-- And stops as its last part does. -/
theorem Stops.append (h : q.Stops) (p : Piece) : (p.append q).Stops := by
  intro n
  obtain ⟨t, ht, hstop⟩ := h (n + p.size)
  refine ⟨t, ?_, by rw [hstop, size_append, Nat.add_assoc]⟩
  rw [trees_append, List.getLast?_append, ht, Option.some_or]

theorem Stops.concat (h : p.Stops) : (concat [p]).Stops := by
  intro n
  obtain ⟨t, ht, hstop⟩ := h n
  exact ⟨t, by simpa [Piece.concat, blank] using ht,
    by rw [hstop]; simp [Piece.concat, blank, size]⟩

/-- A node around a piece without blanks at its ends covers it exactly. -/
theorem ofChildren_eq (hstarts : p.Starts) (hstops : p.Stops) (kind : NodeKind) (n offset : Nat) :
    Tree.ofChildren kind (p.trees n) offset = .node kind n (n + p.size) (p.trees n) := by
  obtain ⟨first, hfirst, hstart⟩ := hstarts n
  obtain ⟨last, hlast, hstop⟩ := hstops n
  have hle : first.start ≤ last.stop := by omega
  simp only [Tree.ofChildren, hfirst, hlast]
  rw [if_pos hle, hstart, hstop]

/-! ## Parsing -/

/-- **A step builds the trees of a piece.** Wherever the tokens of the piece come next, and after
them one of a kind that may follow, the step consumes them and adds the trees; it changes nothing
else. The `slack` is 1 for a step with which a rule begins. -/
def Parses (part : UnitPart) (slack : Nat) (a : Step) (follow : TokenKind → Prop) (p : Piece) :
    Prop :=
  ∀ n b s rest, s.rest = p.tokens n ++ rest → follow (headKind rest) → s.Ready part →
    s.rest.length < b + slack → Runs Grammar.rules b a s (.ok (s.past rest (p.trees n)))

variable {part : UnitPart} {slack slack' : Nat} {a c : Step} {P Q : TokenKind → Prop}

/-- A step parses a piece with less slack and before fewer tokens, too. -/
theorem Parses.mono (h : p.Parses part slack a Q) (hle : slack' ≤ slack) (hPQ : ∀ k, P k → Q k) :
    p.Parses part slack' a P := by
  intro n b s rest hs hrest hready hlen
  exact h n b s rest hs (hPQ _ hrest) hready (by omega)

/-- A single move parses a single token. -/
theorem parses_bump {kind : TokenKind} (hkind : kind ≠ .eof) (spelling : Text) :
    (token kind spelling).Parses part slack .bump P := by
  intro n b s rest hs _ _ _
  have hbump : s.bump = s.past rest _ := State.bump_eq hs hkind
  exact hbump ▸ .bump

/-- **The step that the tokens in front call for.** -/
theorem Parses.facing (h : p.Parses part slack c P)
    (hc : ∀ n rest, P (headKind rest) → a.facing (State.before part (headKind (p.tokens n ++ rest))
      (headKind (p.tokens n ++ rest).tail)) = c) :
    p.Parses part slack a P := by
  intro n b s rest hs hrest hready hlen
  refine .of_facing a ?_
  have hfacing := hc n rest hrest
  rw [← hs] at hfacing
  rw [hready.facing_eq]
  exact hfacing ▸ h n b s rest hs hrest hready hlen

/-- **One step after the other.** -/
theorem Parses.seq (hp : p.Parses part slack a Q) (hq : q.Parses part slack' c P)
    (hslack : ∀ n, slack ≤ slack' + (p.tokens n).length)
    (hfollow : ∀ n rest, P (headKind rest) → Q (headKind (q.tokens n ++ rest))) :
    (p.append q).Parses part slack (.seq a c) P := by
  intro n b s rest hs hrest hready hlen
  rw [tokens_append, List.append_assoc] at hs
  have hfirst := hp n b s _ hs (hfollow _ rest hrest) hready hlen
  have hlen' : (q.tokens (n + p.size) ++ rest).length < b + slack' := by
    have hshorter := hslack n
    rw [hs, List.length_append] at hlen
    omega
  have hsecond := hq (n + p.size) b (s.past _ (p.trees n)) rest rfl hrest (hready.past _ _) hlen'
  rw [State.past_past] at hsecond
  exact .seq_ok hfirst hsecond

/-- Blanks in front of a piece are not seen. -/
theorem Parses.after_blank (h : p.Parses part slack a P) (t : Text) :
    ((blank t).append p).Parses part slack a P := by
  intro n b s rest hs hrest hready hlen
  exact h _ b s rest hs hrest hready hlen

/-- A step that does nothing before the tokens of a piece. -/
theorem Parses.after_idle (hq : q.Parses part slack c P)
    (ha : ∀ n rest, P (headKind rest) →
      a.Idle part (headKind (q.tokens n ++ rest)) (headKind (q.tokens n ++ rest).tail)) :
    q.Parses part slack (.seq a c) P := by
  intro n b s rest hs hrest hready hlen
  refine .seq_ok (ha n rest hrest b s hready ?_ ?_) (hq n b s rest hs hrest hready hlen)
  · rw [State.kind, hs]
  · rw [State.kindAfter, hs]

/-- A step that does nothing before what follows a piece. -/
theorem Parses.then_idle (hp : p.Parses part slack a P) (hc : ∀ k k', P k → c.Idle part k k') :
    p.Parses part slack (.seq a c) P := by
  intro n b s rest hs hrest hready hlen
  exact .seq_ok (hp n b s rest hs hrest hready hlen) (hc _ _ hrest b _ (hready.past _ _) rfl rfl)

/-- A step that does nothing reads nothing. -/
theorem parses_idle (h : ∀ k k', P k → a.Idle part k k') : (blank []).Parses part slack a P := by
  intro n b s rest hs hrest hready _
  have hs' : s.rest = rest := hs
  have hpast : s.past rest [] = s := State.past_nil hs
  show Runs _ _ _ _ (.ok (s.past rest []))
  rw [hpast]
  refine h _ _ hrest b s hready ?_ rfl
  rw [State.kind, hs']

/-- A list of one piece is parsed like the piece. -/
theorem Parses.last (h : p.Parses part slack a P) : (concat [p]).Parses part slack a P := by
  intro n b s rest hs hrest hready hlen
  simp only [concat, tokens_append, trees_append, blank, List.append_nil] at hs ⊢
  exact h n b s rest hs hrest hready hlen

/-- A **node** parses a node, if what is inside begins and ends with a token. -/
theorem Parses.node (h : p.Parses part slack a P) (hstarts : p.Starts) (hstops : p.Stops)
    (kind : NodeKind) :
    (node kind p).Parses part slack (.node kind a) P := by
  intro n b s rest hs hrest hready hlen
  have hinside := h n b (s.openNode kind) rest hs hrest (hready.openNode kind) hlen
  obtain ⟨offset, hclose⟩ := State.closeNode_past hready.frames kind rest (p.trees n)
  rw [ofChildren_eq hstarts hstops] at hclose
  exact hclose ▸ .node_ok hinside

/-- A guard parses what it guards. -/
theorem Parses.guarded {recovery : Scan} (h : p.Parses part slack a P) :
    p.Parses part slack (.guarded recovery a) P :=
  fun n b s rest hs hrest hready hlen => .guarded_ok (h n b s rest hs hrest hready hlen)

/-- A call parses what the rule parses, for one level of slack. -/
theorem Parses.call {rule : Rule} (h : p.Parses part 1 (Grammar.rules rule) P) :
    p.Parses part 0 (.call rule) P := by
  intro n b s rest hs hrest hready hlen
  exact .call hlen (h n _ s rest hs hrest hready (Nat.lt_succ_self _))

/-- A step that consumes something, and does nothing in that case. -/
theorem Parses.ifMoved {still : Step} (h : p.Parses part slack a P) (hne : ∀ n, p.tokens n ≠ []) :
    p.Parses part slack (.ifMoved a .skip still) P := by
  intro n b s rest hs hrest hready hlen
  refine .ifMoved_moved (h n b s rest hs hrest hready hlen) ?_ .skip
  have hpos := List.length_pos_iff.2 (hne n)
  rw [hs, List.length_append]
  show rest.length < _
  omega

/-- **A loop over a list of pieces.** Before each of them the test of the loop holds, and before
what follows it does not. -/
theorem parses_loop {α : Type} {f : α → Piece} {test : Test} (xs : List α)
    (hbody : ∀ x ∈ xs, (f x).Parses part slack a Q) (hne : ∀ x n, (f x).tokens n ≠ [])
    (htest : ∀ x ∈ xs, ∀ n rest, test.holds (State.before part (headKind ((f x).tokens n ++ rest))
      (headKind ((f x).tokens n ++ rest).tail)) = true)
    (hQ : ∀ x ∈ xs, ∀ n rest, Q (headKind ((f x).tokens n ++ rest))) (hPQ : ∀ k, P k → Q k)
    (hdone : ∀ k k', P k → test.holds (State.before part k k') = false) :
    (concat (xs.map f)).Parses part slack (.loop test a) P := by
  induction xs with
  | nil =>
    intro n b s rest hs hrest hready _
    have hpast : s.past rest [] = s := State.past_nil hs
    show Runs _ _ _ _ (.ok (s.past rest []))
    rw [hpast]
    refine .loop_done ?_
    rw [hready.holds_eq]
    refine hdone _ _ ?_
    rw [State.kind, hs]
    exact hrest
  | cons x xs ih =>
    have hagain := ih (fun y hy => hbody y (List.mem_cons_of_mem _ hy))
      (fun y hy => htest y (List.mem_cons_of_mem _ hy)) fun y hy => hQ y (List.mem_cons_of_mem _ hy)
    intro n b s rest hs hrest hready hlen
    rw [List.map_cons, concat, tokens_append, List.append_assoc] at hs
    -- What comes after this round is another one, or what follows the loop.
    have hnext : Q (headKind ((concat (xs.map f)).tokens (n + (f x).size) ++ rest)) := by
      cases xs with
      | nil => exact hPQ _ hrest
      | cons y ys =>
        rw [List.map_cons, concat, tokens_append, List.append_assoc]
        exact hQ y (by simp) _ _
    have hround := hbody x (by simp) n b s _ hs hnext hready hlen
    have hpos := List.length_pos_iff.2 (hne x n)
    have hshorter : ((concat (xs.map f)).tokens (n + (f x).size) ++ rest).length
        < s.rest.length := by
      simp only [hs, List.length_append]
      omega
    have hrest' := hagain (n + (f x).size) b (s.past _ ((f x).trees n)) rest rfl hrest
      (hready.past _ _)
      (Nat.lt_trans hshorter hlen)
    rw [State.past_past] at hrest'
    refine .loop_round ?_ hround hshorter hrest'
    rw [hready.holds_eq, State.kind, State.kindAfter, hs]
    exact htest x (by simp) n _

/-! ## Single tokens -/

/-- An expected token is parsed. -/
theorem parses_expect {k : TokenKind} (hk : k ≠ .eof) (spelling : Text) :
    (token k spelling).Parses part slack (Step.expect k) P := by
  refine (parses_bump hk spelling).facing fun n rest _ => ?_
  rw [Step.expect, Step.facing, Test.holds]
  exact if_pos (TokenKind.sameShape_self k)

theorem parses_expectIdent (name : Text) : (ident name).Parses part slack Step.expectIdent P :=
  (parses_bump (by simp) name).facing fun _ _ _ => rfl

/-- A step that reads one token, whatever comes behind it, and a piece after it. -/
theorem Parses.after_token (hq : q.Parses part slack c P) {kind : TokenKind} {spelling : Text}
    (ha : (token kind spelling).Parses part slack a fun _ => True) :
    ((token kind spelling).append q).Parses part slack (.seq a c) P :=
  ha.seq hq (fun _ => Nat.le_add_right _ _) fun _ _ _ => trivial

/-! ## Stretches of tokens -/

/-- A piece in which no node is built, and whose tokens are all of kinds that are `ok`. -/
def Flat (ok : TokenKind → Prop) (p : Piece) : Prop :=
  ∀ n, p.trees n = (p.tokens n).map .leaf ∧ ∀ t ∈ p.tokens n, ok t.kind

variable {ok : TokenKind → Prop}

/-- Blanks have no tokens at all. -/
theorem flat_blank (t : Text) : (blank t).Flat ok :=
  fun _ => ⟨rfl, by simp [blank]⟩

/-- A token is flat if its kind is allowed. -/
theorem flat_token {kind : TokenKind} (hkind : ok kind) (spelling : Text) :
    (token kind spelling).Flat ok :=
  fun _ => ⟨rfl, by simp [token, hkind]⟩

/-- Two flat pieces are flat together. -/
theorem Flat.append (hp : p.Flat ok) (hq : q.Flat ok) : (p.append q).Flat ok := by
  intro n
  obtain ⟨htrees, hkinds⟩ := hp n
  obtain ⟨htrees', hkinds'⟩ := hq (n + p.size)
  refine ⟨by rw [trees_append, htrees, htrees', tokens_append, List.map_append], fun t ht => ?_⟩
  rw [tokens_append, List.mem_append] at ht
  exact ht.elim (hkinds t) (hkinds' t)

/-- So is a list of them. -/
theorem flat_concat {ps : List Piece} (h : ∀ p ∈ ps, p.Flat ok) : (concat ps).Flat ok := by
  induction ps with
  | nil => exact flat_blank _
  | cons p ps ih => exact (h p (by simp)).append (ih fun q hq => h q (List.mem_cons_of_mem _ hq))

/-- The kinds that do not matter to a count of round brackets. -/
def Unbracketed (k : TokenKind) : Prop :=
  k ≠ .eof ∧ k ≠ .symbol .lParen ∧ k ≠ .symbol .rParen

/-- From inside a pair of brackets, a scan goes through all that is no bracket and
through the closing one. -/
theorem run_balanced_inside {ts : List Token} (hts : ∀ t ∈ ts, Unbracketed t.kind) {c : Token}
    (hc : c.kind = .symbol .rParen) {n : Nesting} (hn : n.brackets = 1) (rest : List Token) :
    (Scan.balanced (.symbol .lParen) (.symbol .rParen)).run n (ts ++ c :: rest)
      = (ts.length + 1, true) := by
  induction ts with
  | nil => simp [Scan.run, Scan.balanced, hc, hn, TokenKind.sameShape]
  | cons t ts ih =>
    obtain ⟨heof, hopen, hclose⟩ := hts t (by simp)
    have hgo : Scan.balanced (.symbol .lParen) (.symbol .rParen) n t.kind
        (headKind (ts ++ c :: rest)) = .go n := by
      rw [Scan.balanced, TokenKind.sameShape_of_ne hopen rfl, TokenKind.sameShape_of_ne hclose rfl]
      rfl
    rw [List.cons_append, Scan.run_go heof hgo, ih fun u hu => hts u (by simp [hu])]
    rfl

/-- A stretch in round brackets is consumed whole. -/
theorem parses_bracketed (hp : p.Flat Unbracketed) :
    (concat [symbol .lParen, p, symbol .rParen]).Parses part slack
      (Grammar.bracketed .lParen .rParen) P := by
  -- The tokens are consumed by one scan, so each becomes a leaf.
  have hflat : ∀ n, (concat [symbol .lParen, p, symbol .rParen]).trees n
      = ((concat [symbol .lParen, p, symbol .rParen]).tokens n).map .leaf := by
    intro n
    simp [concat, symbol, token, blank, (hp _).1]
  intro n b s rest hs _ _ _
  have hscan : (Scan.balanced (.symbol .lParen) (.symbol .rParen)).run {} s.rest
      = (((concat [symbol .lParen, p, symbol .rParen]).tokens n).length, true) := by
    have hinside := run_balanced_inside (hp (n + (symbol .lParen).size)).2
      (c := ⟨.symbol .rParen, n + (symbol .lParen).size + p.size,
        n + (symbol .lParen).size + p.size + Text.size Symbol.rParen.spelling.toList⟩) rfl
      (n := { brackets := 1 }) rfl rest
    simp only [concat, symbol, token, blank, tokens_append, List.cons_append, List.nil_append,
      List.append_nil, List.append_assoc] at hs hinside ⊢
    -- The opening bracket is the one that the scan has open while it goes through the inside.
    have hgo : Scan.balanced (.symbol .lParen) (.symbol .rParen) {} (.symbol .lParen)
        (headKind s.rest.tail)
        = .go { brackets := 1 } := rfl
    rw [hs] at hgo ⊢
    rw [Scan.run_go (by simp) hgo, hinside]
    simp
  have hstopped : ((Scan.balanced (.symbol .lParen) (.symbol .rParen)).run {} s.rest).2
    = true := by rw [hscan]
  have hrun : Runs Grammar.rules b (Grammar.bracketed .lParen .rParen) s _ :=
    .takeClosed_ok hstopped
  rw [hscan, State.advance_eq hs, ← hflat] at hrun
  exact hrun

end Piece

end PascalAtlas
