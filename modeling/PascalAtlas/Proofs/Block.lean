import PascalAtlas.Proofs.Blueprint
import PascalAtlas.Proofs.Layout
import PascalAtlas.Proofs.Seen

/-!
# Blocks as pieces

A text that is the inside of a block (`Text.isBody`) is known only by what happens to it alone:
between `begin` and `end` it is read without an error. Here this is turned into a **piece**
(`exists_block`): wherever the block stands, and whatever follows it, it has the same tokens and the
same tree, moved to where it stands.

Three facts make that up. The line breaks around the text keep its tokens apart from all others
(`lexFrom_line`); the grammar does not look at offsets (`Step.like_run`); and a list of statements
that was read without an error does not look behind its `end` (`Runs.elsewhere`).
-/

namespace PascalAtlas

open Step (Runs)

namespace Grammar

open Step (all choose expect errorToken)

/-! ## Statements are near -/

/-- A test for one of some kinds looks at the next token only. -/
theorem near_any_here (stops : List TokenKind) : (Test.any (stops.map .here)).near = true := by
  induction stops with
  | nil => rfl
  | cons stop stops ih => rw [List.map_cons, Test.any, Test.near, ih]; rfl

/-- A list of statements tests the next token and nothing else. -/
theorem near_statements (stops : List TokenKind) : (statements stops).Near := by
  simp [statements, Step.Near, choose, errorToken, Test.near, Test.eof, Test.symbol, near_any_here]

/-- So does each statement. -/
theorem near_statement : statement.Near := by
  have hexpression (stops : List TokenKind) : (Scan.expression stops).Near := fun _ _ _ _ => rfl
  have hupTo (stops : List TokenKind) : (Scan.upTo stops).Near := fun _ _ _ _ => rfl
  simp [statement, Step.Near, choose, all, Step.when, expect, compound, conditional, headed,
    caseStatement, caseArm, repetition, tryStatement, handler, assembler, expression, optionalSemi,
    near_statements, hexpression, hupTo, Test.near, Test.keyword, Test.symbol, Test.eof,
    Test.any, statementEnd]

/-! ## A block that has been read once -/

/-- What is expected is consumed where it comes next. -/
theorem runs_expect {kind : TokenKind} {x : Token} {rest : List Token} {t : State} (c : Nat)
    (ht : t.rest = x :: rest) (hx : x.kind = kind) (hkind : kind ≠ .eof) :
    Runs rules c (expect kind) t (.ok (t.past rest [.leaf x])) := by
  have hbump : t.bump = t.past rest [.leaf x] := State.bump_eq ht (hx ▸ hkind)
  refine .branch_yes ?_ (hbump ▸ .bump)
  rw [Test.holds, State.kind, ht, headKind, hx]
  exact TokenKind.sameShape_self kind

/-- What was expected without a failure came next, and was consumed. -/
theorem exists_of_runs_expect {kind : TokenKind} {t t' : State} {c : Nat}
    (h : Runs rules c (expect kind) t (.ok t')) (htext : kind.textless = true)
    (hkind : kind ≠ .eof) :
    ∃ x rest, t.rest = x :: rest ∧ x.kind = kind ∧ t' = t.past rest [.leaf x] := by
  cases h with
  | branch_no _ run => cases run
  | branch_yes hhere run =>
    cases run
    obtain ⟨x, rest, ht, hx⟩ := Test.rest_of_here hhere htext hkind
    exact ⟨x, rest, ht, hx, State.bump_eq ht (hx ▸ hkind)⟩

/-- **A block that was read alone is read anywhere.** Its tokens are `us` and `e`; alone, only the
end of the tokens came behind them. -/
theorem compound_elsewhere {us : List Token} {e z : Token} {s s' : State}
    (hs : s.rest = us ++ [e, z]) (hrun : Runs rules s.rest.length compound s (.ok s'))
    (hrest : s'.rest = [z]) (herrors : s'.errors = s.errors) :
    ∃ b w F, us = b :: w ∧ b.kind = .keyword .kwBegin ∧ e.kind = .keyword .kwEnd ∧ ∀ c t rest,
      t.rest = us ++ e :: rest → t.frames ≠ [] → t.rest.length < c + 1 →
      ∃ offset, Runs rules c compound t
        (.ok (t.past rest [Tree.ofChildren .compound (.leaf b :: (F ++ [.leaf e])) offset])) := by
  -- The run is the two words and the list between them.
  cases hrun with
  | node_ok inside =>
  cases inside with
  | seq_ok first second =>
  cases second with
  | @seq_ok _ _ _ _ s₃ _ list close =>
  obtain ⟨b, r, hr, hb, rfl⟩ := exists_of_runs_expect first rfl (by simp)
  obtain ⟨e', r', hr', he', rfl⟩ := exists_of_runs_expect close rfl (by simp)
  rw [State.rest_closeNode] at hrest
  obtain rfl : r' = [z] := hrest
  -- So the list ends before the last `end`.
  obtain ⟨w, hw⟩ : s₃.rest <:+ r := list.rest_suffix
  rw [hr'] at hw
  have htokens : us ++ [e, z] = (b :: w) ++ [e', z] := by
    rw [← hs, ← State.rest_openNode s .compound, hr, ← hw]
    rfl
  obtain ⟨rfl, hez⟩ := List.append_inj' htokens rfl
  obtain rfl : e = e' := (List.cons.inj hez).1
  rw [State.errors_closeNode] at herrors
  have hw' : ((s.openNode .compound).past r [.leaf b]).rest = (w ++ [e]) ++ [z] := by
    show r = _
    rw [← hw]
    simp
  obtain ⟨F, -, helsewhere⟩ := list.elsewhere near_statement _ rfl (near_statements _) herrors
    (w ++ [e]) [e] [z]
    hw' hr' (List.cons_ne_nil _ _) (Frame.grow_ne_nil (List.cons_ne_nil _ _))
  refine ⟨b, w, F, rfl, hb, he', fun c t rest ht htframes hlen => ?_⟩
  have hopen : (t.openNode .compound).rest = b :: (w ++ e :: rest) := ht
  have hfirst := runs_expect c hopen hb (by simp)
  have hmiddle := helsewhere c ((t.openNode .compound).past (w ++ e :: rest) [.leaf b]) rest
    (by simp [State.past])
    (Frame.grow_ne_nil (List.cons_ne_nil _ _)) (by
      rw [ht] at hlen
      rw [hs]
      simp only [List.length_append, List.length_cons, List.length_nil] at hlen ⊢
      omega)
  have hlast := @runs_expect _ e rest
    (((t.openNode .compound).past (w ++ e :: rest) [.leaf b]).past ([e] ++ rest) F) c
    rfl he' (by simp)
  rw [State.past_past, State.past_past, List.append_assoc] at hlast
  rw [State.past_past] at hmiddle
  obtain ⟨offset, hclose⟩ :=
    State.closeNode_past htframes .compound rest ([.leaf b] ++ (F ++ [.leaf e]))
  exact ⟨offset, hclose ▸ .node_ok (.seq_ok hfirst (.seq_ok hmiddle hlast))⟩

/-- The interpreter runs a block productively. -/
theorem runs_compound {s s' : State} {m : Nat} (hm : s.rest.length ≤ m)
    (h : compound.run (Rule.run rules m) s = .ok s') :
    Runs rules s.rest.length compound s (.ok s') := by
  have hexists : ∃ o, Runs rules s.rest.length compound s o :=
    Step.exists_runs_node_seq (fun rule t _ => exists_runs_rule rule t) steady_compound rfl
      (Step.consumes_expect rfl)
  obtain ⟨o, ho⟩ := hexists
  rw [ho.run_eq m hm] at h
  exact h ▸ ho

end Grammar

/-- What a run consumes, and no end of the tokens is among it. -/
theorem Step.Runs.exists_consumed {grammar : Rule → Step} {b : Nat} {a : Step} {s s' : State}
    (h : Runs grammar b a s (.ok s')) (hs : s.frames ≠ []) :
    ∃ front, s.rest = front ++ s'.rest ∧ ∀ t ∈ front, t.kind ≠ .eof := by
  obtain ⟨F, -, hF⟩ := h.grown_trivial hs
  exact ⟨Tree.leavesOf F, hF.leaves_append.symm, hF.kind_ne_eof⟩

/-! ## Moved to another place -/

namespace Token

/-- Tokens and offsets that are a number of bytes apart. -/
def moving (d : Nat) : Likeness where
  token t t' := t' = t.shift d
  offset m n := n = m + d
  seen_eq := by
    rintro t _ rfl
    rfl
  start_like := by
    rintro t _ rfl
    rfl
  stop_like := by
    rintro t _ rfl
    rfl
  ordered := .inl (by omega)

/-- Tokens that are moved by an offset are begun with in states that are alike. -/
theorem like_initial_shift {tokens : List Token} (hne : tokens ≠ []) (d : Nat) :
    (State.initial tokens).Like (moving d) (State.initial (tokens.map (shift d))) := by
  have hmap : List.Forall₂ (moving d).token tokens (tokens.map (shift d)) := by
    rw [List.forall₂_map_right_iff]
    exact List.forall₂_same.2 fun _ _ => rfl
  refine ⟨hmap, .cons ⟨rfl, .nil⟩ .nil, .nil, rfl, rfl, rfl, ?_⟩
  obtain ⟨front, last, rfl⟩ := List.eq_nil_or_concat tokens |>.resolve_left hne
  simp [State.initial, moving, shift]

/-- Where a block that stands alone is read without an error, it is so wherever it begins. -/
theorem run_compound_shift {tokens : List Token} {z : Token} {s : State} (hne : tokens ≠ [])
    (hrun : Grammar.compound.run (Rule.run Grammar.rules (tokens.length + 1)) (State.initial tokens)
      = .ok s) (hrest : s.rest = [z]) (herrors : s.errors = []) (d : Nat) :
    ∃ s', Grammar.compound.run (Rule.run Grammar.rules (tokens.length + 1))
        (State.initial (tokens.map (shift d)))
        = .ok s' ∧ s'.rest = [z.shift d] ∧ s'.errors = [] := by
  have hblind : Grammar.compound.Blind := by
    simp [Grammar.compound, Step.Blind, Step.all, Step.expect, Grammar.blind_statements]
  have hlike := Step.like_run
    (fun rule _ _ => Rule.like_run Grammar.blind_rules (tokens.length + 1) rule)
    Grammar.compound hblind (like_initial_shift hne d)
  rw [hrun] at hlike
  generalize Grammar.compound.run _ (State.initial (tokens.map (shift d))) = o at hlike
  cases hlike with
  | @ok _ s' h =>
    have hrest' := h.rest
    have herrors' := h.errors
    rw [hrest, List.forall₂_cons_left_iff] at hrest'
    rw [herrors, List.forall₂_nil_left_iff] at herrors'
    obtain ⟨z', rest', hz, hnil, hrest'⟩ := hrest'
    rw [List.forall₂_nil_left_iff.1 hnil, (hz : z' = z.shift d)] at hrest'
    exact ⟨s', rfl, hrest', herrors'⟩

end Token

/-! ## The piece -/

namespace Text

/-- What there is to know of the inside of a block. -/
theorem exists_of_isBody {body : Text} (h : body.isBody = true) :
    ∃ tokens s, Token.lex (inBlock body) = .ok tokens
      ∧ Grammar.compound.run (Rule.run Grammar.rules (tokens.length + 1)) (State.initial tokens)
        = .ok s
      ∧ s.errors = [] ∧ s.kind = .eof := by
  unfold isBody at h
  split at h
  next => cases h
  next tokens hlex =>
    split at h
    next s hrun =>
      rw [Bool.and_eq_true, List.isEmpty_iff, beq_iff_eq] at h
      exact ⟨tokens, s, hlex, hrun, h.1, h.2⟩
    next => cases h

/-- The first word of a block that begins at a byte. -/
def beginAt (n : Nat) : Token :=
  ⟨.keyword .kwBegin, n, n + 5⟩

/-- The last word of a block that begins at a byte. -/
def endAt (body : Text) (n : Nat) : Token :=
  ⟨.keyword .kwEnd, n + size body + 7, n + size body + 10⟩

theorem size_inBlock (body : Text) : size (inBlock body) = size body + 10 := by
  show size ("begin\n".toList ++ body ++ "\nend".toList) = _
  rw [size_append, size_append]
  show 6 + size body + 4 = _
  omega

/-- The tokens of a block are two words and what is between them, **and what is between them does
not depend on what follows**. -/
theorem lexFrom_inBlock {body : Text} {n : Nat} {tokens : List Token}
    (h : Token.lexFrom n (inBlock body) = .ok tokens) :
    ∃ us z, tokens = us ++ [endAt body n, z] ∧ (∃ more, tokens = beginAt n :: more)
      ∧ ∀ rest, Piece.EndsWord rest → Token.lexFrom n (inBlock body ++ rest)
        = (Token.lexFrom (n + size (inBlock body)) rest).map (us ++ [endAt body n] ++ ·) := by
  have hline : ∀ rest, inBlock body ++ rest
      = ("begin\n".toList ++ body) ++ '\n' :: ("end".toList ++ rest) := by
    intro rest
    show "begin\n".toList ++ body ++ "\nend".toList ++ rest = _
    rw [List.append_assoc]
    rfl
  have hsize : n + size ("begin\n".toList ++ body) + 1 = n + size body + 7 := by
    rw [size_append]
    show n + (6 + size body) + 1 = _
    omega
  have hend : ∀ rest, Piece.EndsWord rest → Token.lexFrom (n + size body + 7) ("end".toList ++ rest)
      = (Token.lexFrom (n + size body + 10) rest).map ([endAt body n] ++ ·) :=
    fun rest hrest => Piece.lexes_keyword .kwEnd (n + size body + 7) rest hrest
  have hnil := hline []
  rw [List.append_nil, List.append_nil] at hnil
  rw [hnil] at h
  obtain ⟨us, vs, rfl, hvs, hagain⟩ := Token.lexFrom_line ⟨rfl, rfl⟩ _ n h
  rw [hsize] at hvs hagain
  have hlast := hend [] rfl
  rw [List.append_nil, hvs, Token.lexFrom] at hlast
  obtain rfl := Except.ok.inj hlast
  refine ⟨us, _, rfl, ?_, fun rest hrest => ?_⟩
  · -- The first word is followed by a line break.
    have hword := Piece.lexes_keyword .kwBegin n ("\n".toList ++ body ++ "\nend".toList) rfl
    obtain ⟨more, -, hmore⟩ := Except.map_eq_ok (hword.symm.trans h)
    exact ⟨more, hmore.symm⟩
  · rw [hline, hagain, hend rest hrest, Token.map_append_append, size_inBlock, Nat.add_assoc]

/-- A node around a block covers it. -/
theorem ofChildren_compound (body : Text) (n offset : Nat) (F : List Tree) :
    Tree.ofChildren .compound (.leaf (beginAt n) :: (F ++ [.leaf (endAt body n)])) offset
      = .node .compound n (n + size (inBlock body))
        (.leaf (beginAt n) :: (F ++ [.leaf (endAt body n)])) := by
  have hle : n ≤ n + size body + 10 := by omega
  rw [Tree.ofChildren, List.head?_cons, ← List.cons_append, List.getLast?_concat, size_inBlock,
    ← Nat.add_assoc]
  exact if_pos hle

/-- The tokens and the tree of a block **at a given place**. -/
theorem block_at {body : Text} (h : body.isBody = true) (n : Nat) :
    ∃ ts F, (∀ rest, Piece.EndsWord rest → Token.lexFrom n (inBlock body ++ rest)
        = (Token.lexFrom (n + size (inBlock body)) rest).map
          (beginAt n :: (ts ++ [endAt body n]) ++ ·))
      ∧ ∀ c t rest, t.rest = beginAt n :: (ts ++ [endAt body n]) ++ rest → t.frames ≠ [] →
        t.rest.length < c + 1 → Runs Grammar.rules c Grammar.compound t (.ok (t.past rest
          [.node .compound n (n + size (inBlock body))
              (.leaf (beginAt n) :: (F ++ [.leaf (endAt body n)]))])) := by
  obtain ⟨tokens, s, hlex, hrun, herrors, hkind⟩ := exists_of_isBody h
  -- Alone, the block is read up to the end of the tokens.
  have hruns := Grammar.runs_compound (Nat.le_succ _) hrun
  obtain ⟨front, hfront, hne⟩ := hruns.exists_consumed (List.cons_ne_nil _ _)
  have hstream := Token.stream_lex hlex
  rw [show tokens = front ++ s.rest from hfront] at hstream
  have hrest := hstream.rest_eq_eof hne hkind
  have htokens : tokens ≠ [] := by
    rw [show tokens = front ++ s.rest from hfront, hrest]
    simp
  obtain ⟨s', hrun', hrest', herrors'⟩ := Token.run_compound_shift htokens hrun hrest herrors n
  have hruns' := Grammar.runs_compound (by simp [State.initial]) hrun'
  -- So it is at this place, and there its last word comes right before that end.
  have hshift := Token.lexFrom_shift n 0 _ _ hlex
  rw [Nat.zero_add] at hshift
  obtain ⟨us, z, htokens', ⟨more, hmore⟩, hagain⟩ := lexFrom_inBlock hshift
  have hs : (State.initial (tokens.map (Token.shift n))).rest = us ++ [endAt body n, z] := htokens'
  obtain ⟨front', hfront'⟩ := hruns'.rest_suffix
  rw [Outcome.state, hs, hrest', List.append_cons us] at hfront'
  rw [List.singleton_inj.1 (List.append_inj' hfront' rfl).2] at hrest'
  obtain ⟨b, w, F, rfl, -, -, helsewhere⟩ := Grammar.compound_elsewhere hs hruns' hrest' herrors'
  obtain ⟨rfl, -⟩ := List.cons.inj (hmore.symm.trans htokens')
  refine ⟨w, F, hagain, fun c t rest ht hframes hlen => ?_⟩
  have ht' : t.rest = beginAt n :: w ++ endAt body n :: rest := by
    rw [ht]
    simp
  obtain ⟨offset, hrun⟩ := helsewhere c t rest ht' hframes hlen
  rwa [ofChildren_compound] at hrun

end Text

/-- **A block is a piece.** -/
theorem Piece.exists_block {body : Text} (h : body.isBody = true) :
    ∃ p : Piece, p.text = Text.inBlock body ∧ p.Lexes EndsWord
      ∧ (∀ part P, p.Parses part 1 Grammar.compound P)
      ∧ ∀ n, ∃ ts F, p.tokens n = Text.beginAt n :: ts
        ∧ p.trees n = [.node .compound n (n + p.size)
            (.leaf (Text.beginAt n) :: (F ++ [.leaf (Text.endAt body n)]))] := by
  choose ts F hlex hruns using Text.block_at h
  refine ⟨{ text := Text.inBlock body
            tokens := fun n => Text.beginAt n :: (ts n ++ [Text.endAt body n])
            trees := fun n => [.node .compound n (n + Text.size (Text.inBlock body))
              (.leaf (Text.beginAt n) :: (F n ++ [.leaf (Text.endAt body n)]))] },
    rfl, hlex, ?_, fun n => ⟨_, F n, rfl, rfl⟩⟩
  intro part P n b s rest hs _ hready hlen
  exact hruns n b s rest hs hready.frames hlen

end PascalAtlas
