import PascalAtlas.Proofs.Forest
import PascalAtlas.Proofs.Stream

/-!
# Lossless trees

The leaves of the tree of a text are the tokens of the text, from the first one on: none is lost,
none stands twice and none is out of order, however little sense the text makes. That they are
**some** first tokens is in the forest that the parser builds. How many they are depends on how the
parser ends: it goes on to the end of the tokens, unless it has consumed the `end.` of the unit, and
then it stops behind it.

The second half is what takes an argument here. The note that the unit is closed is made in one
place only, right behind an `end` and a `.` that stand at the level of the unit, and the loop over
the items of the unit is left at once when it has been made.
-/

namespace PascalAtlas

/-! ## The note that the unit is closed -/

namespace Step

/-- Whether a step nowhere notes that the unit is closed. -/
def keepsOpen : Step → Bool
  | .seq a c => a.keepsOpen && c.keepsOpen
  | .branch _ yes no => yes.keepsOpen && no.keepsOpen
  | .loop _ body => body.keepsOpen
  | .ifMoved body moved still => body.keepsOpen && moved.keepsOpen && still.keepsOpen
  | .node _ body => body.keepsOpen
  | .guarded _ body => body.keepsOpen
  | .noteClosed => false
  | _ => true

variable {grammar : Rule → Step} {a : Step} {s : State} {o : Outcome} {b : Nat}

/-- A step without the note does not close the unit. -/
theorem Runs.closed_eq (hrules : ∀ rule, (grammar rule).keepsOpen = true)
    (h : Runs grammar b a s o) (ha : a.keepsOpen = true) : o.state.closed = s.closed := by
  induction h with
  | bump => exact State.closed_eq_of_marks (State.marks_bump _)
  | take => exact State.closed_eq_of_marks (State.marks_advance _ _)
  | takeClosed_ok => exact State.closed_eq_of_marks (State.marks_advance _ _)
  | takeClosed_fail => exact State.closed_eq_of_marks (State.marks_advance _ _)
  | noteClosed => exact absurd ha (by decide)
  | seq_ok _ _ ih₁ ih₂ =>
    rw [keepsOpen, Bool.and_eq_true] at ha
    exact (ih₂ ha.2).trans (ih₁ ha.1)
  | seq_fail _ ih =>
    rw [keepsOpen, Bool.and_eq_true] at ha
    exact ih ha.1
  | branch_yes _ _ ih =>
    rw [keepsOpen, Bool.and_eq_true] at ha
    exact ih ha.1
  | branch_no _ _ ih =>
    rw [keepsOpen, Bool.and_eq_true] at ha
    exact ih ha.2
  | loop_round _ _ _ _ ih₁ ih₂ => exact (ih₂ ha).trans (ih₁ ha)
  | loop_fail _ _ _ ih => exact ih ha
  | ifMoved_moved _ _ _ ih₁ ih₂ =>
    rw [keepsOpen, Bool.and_eq_true, Bool.and_eq_true] at ha
    exact (ih₂ ha.1.2).trans (ih₁ ha.1.1)
  | ifMoved_still _ _ _ ih₁ ih₂ =>
    rw [keepsOpen, Bool.and_eq_true, Bool.and_eq_true] at ha
    exact (ih₂ ha.2).trans (ih₁ ha.1.1)
  | ifMoved_fail _ ih =>
    rw [keepsOpen, Bool.and_eq_true, Bool.and_eq_true] at ha
    exact ih ha.1.1
  | node_ok _ ih => exact (State.closed_eq_of_marks (State.marks_closeNode _)).trans (ih ha)
  | node_fail _ ih => exact ih ha
  | guarded_ok _ ih => exact ih ha
  | guarded_fail _ ih =>
    exact (State.closed_eq_of_marks (State.marks_recover _ _ _ _)).trans (ih ha)
  | @call _ rule _ _ _ _ ih => exact ih (hrules rule)
  | _ => rfl

end Step

namespace Grammar

open Step

theorem rules_keepsOpen (rule : Rule) : (rules rule).keepsOpen = true := by
  cases rule <;> rfl

/-- The item that closes the unit is an `end` followed by a `.`, and it adds both as leaves. -/
theorem closing_item {b : Nat} {s s₁ : State} (hword : (Test.keyword .kwEnd).holds s = true)
    (h : Runs rules b (all [.bump, when (.symbol .dot) (all [.bump, .noteClosed])]) s (.ok s₁))
    (hs : s.closed = false) (hs₁ : s₁.closed = true) :
    ∃ e d, s.rest = e :: d :: s₁.rest ∧ e.kind = .keyword .kwEnd ∧ d.kind = .symbol .dot ∧
      s₁.frames = Frame.grow [.leaf e, .leaf d] s.frames := by
  obtain ⟨e, ts, hrest, he⟩ := Test.rest_of_here hword rfl (by simp)
  have hbump := State.bump_eq hrest (by rw [he]; simp)
  cases h with
  | seq_ok first second =>
    cases first
    rw [hbump] at second
    cases second with
    | branch_yes hdot run =>
      obtain ⟨d, us, hus, hd⟩ := Test.rest_of_here hdot rfl (by simp)
      cases run with
      | seq_ok first second =>
        cases first
        cases second
        rw [State.bump_eq hus (by rw [hd]; simp)]
        refine ⟨e, d, ?_, he, hd, ?_⟩
        · rw [hrest]
          exact congrArg _ hus
        · exact Frame.grow_grow _ _ _
    -- Without the `.` nothing is closed.
    | branch_no _ run =>
      cases run
      exact absurd (hs.symm.trans hs₁) (by decide)

/-- The unit is closed **by an `end` and a `.`**, which an item has consumed and nothing else. -/
theorem item_closed {b : Nat} {s s₁ : State} (h : Runs rules b unitItem s (.ok s₁))
    (hs : s.closed = false) (hs₁ : s₁.closed = true) :
    ∃ e d, s.rest = e :: d :: s₁.rest ∧ e.kind = .keyword .kwEnd ∧ d.kind = .symbol .dot ∧
      s₁.frames = Frame.grow [.leaf e, .leaf d] s.frames := by
  -- Every other item leaves the note as it is.
  have hopen : ∀ {a : Step}, a.keepsOpen = true → Runs rules b a s (.ok s₁) → False := by
    intro a ha hrun
    have hsame : s₁.closed = s.closed := hrun.closed_eq rules_keepsOpen ha
    rw [hs, hs₁] at hsame
    exact absurd hsame (by decide)
  refine h.of_choose (fun c hc hword hrun => ?_) fun hrun => (hopen rfl hrun).elim
  simp only [List.mem_cons, List.not_mem_nil, or_false] at hc
  rcases hc with rfl | rfl | rfl | rfl | rfl | rfl | rfl | rfl | rfl | rfl
  any_goals exact (hopen rfl hrun).elim
  exact closing_item hword hrun hs hs₁

/-- What holds whenever the loop over the items of the unit tests whether to go on: only the frame
of the unit is open, and if the unit is closed, the `end` and the `.` have just been added to it. -/
structure AtItem (tokens : List Token) (s : State) : Prop where
  suffix : s.rest <:+ tokens
  unitFrame : ∃ F, s.frames = [⟨.unit, F⟩]
  closing : s.closed = true → ∃ front e d F, tokens = front ++ e :: d :: s.rest ∧
    e.kind = .keyword .kwEnd ∧ d.kind = .symbol .dot ∧ s.frames = [⟨.unit, F ++ [.leaf e, .leaf d]⟩]

/-- The state between two items is kept by a round. -/
theorem atItem_round {tokens : List Token} {b : Nat} {s s₁ : State} (hs : AtItem tokens s)
    (htest : (Test.not (.or .eof .closed)).holds s = true)
    (h : Runs rules b (.ifMoved unitItem .skip (errorToken .unitLevel)) s (.ok s₁)) :
    AtItem tokens s₁ := by
  have hopen : s.closed = false := by
    cases hc : s.closed with
    | false => rfl
    | true => simp [Test.holds, hc] at htest
  obtain ⟨F, hF⟩ := hs.unitFrame
  have hsuffix : s₁.rest <:+ tokens := h.rest_suffix.trans hs.suffix
  have hframe : ∃ G, s₁.frames = [⟨.unit, G⟩] := by
    obtain ⟨G, hG⟩ := h.exists_grow (by simp [hF])
    exact ⟨F ++ G, by rw [hG, hF]; rfl⟩
  refine ⟨hsuffix, hframe, fun hclosed => ?_⟩
  obtain ⟨front, hfront⟩ := hs.suffix
  cases h with
  | ifMoved_moved first _ second =>
    cases second
    obtain ⟨e, d, hrest, he, hd, hframes⟩ := item_closed first hopen hclosed
    refine ⟨front, e, d, F, ?_, he, hd, ?_⟩
    · rw [← hfront, hrest]
    · rw [hframes, hF]
      rfl
  | ifMoved_still first hstill second =>
    -- An item that has consumed nothing has not closed the unit, and neither has the `error` node.
    have hkept := second.closed_eq rules_keepsOpen rfl
    obtain ⟨e, d, hrest, -⟩ := item_closed first hopen (hkept.symm.trans hclosed)
    rw [hrest, List.length_cons, List.length_cons] at hstill
    omega

/-- How the parser ends: at the end of the tokens, or behind the `end.` of the unit. -/
theorem parse_end (tokens : List Token) :
    AtItem tokens (Token.parseState tokens) ∧
      ((Token.parseState tokens).kind = .eof ∨ (Token.parseState tokens).closed = true) := by
  have hstart : AtItem tokens (State.initial tokens) :=
    ⟨List.suffix_refl _, ⟨[], rfl⟩, fun h => absurd h Bool.false_ne_true⟩
  obtain ⟨hend, hleft⟩ := (runs_unit tokens).loop_invariant hstart
    fun s s₁ hs htest hround => atItem_round hs htest hround
  refine ⟨hend, ?_⟩
  rw [Test.holds, Test.holds, Bool.not_eq_false', Bool.or_eq_true] at hleft
  rcases hleft with heof | hclosed
  · exact .inl (TokenKind.eq_of_sameShape heof rfl)
  · exact .inr hclosed

end Grammar

/-! ## Leaves -/

/-- The leaves of the tree, and after them what the parser has left, are the tokens. -/
theorem leaves_append_rest (tokens : List Token) :
    (Token.parse tokens).root.leaves ++ (Token.parseState tokens).rest = tokens ∧
      ∀ t ∈ (Token.parse tokens).root.leaves, t.kind ≠ .eof := by
  have hrules : ∀ rule, (Grammar.rules rule).Forms Grammar.rules (fun _ _ => True) fun _ => True :=
    fun rule => Step.forms_trivial _ _
  obtain ⟨F, hframes, hforest⟩ := exists_forest (fun _ => trivial) hrules
    (Step.forms_trivial _ _) tokens
  have hroot : (Token.parse tokens).root.leaves = Tree.leavesOf F := by
    rw [Token.parse, root_eq hframes, Tree.leaves_ofChildren]
  rw [hroot]
  exact ⟨hforest.leaves_append, hforest.kind_ne_eof⟩

/-- What the leaves of the tree leave out: nothing but the final `eof`, or what stands behind the
`end.` that closes the unit. -/
theorem leaves_end {src : Text} {tokens : List Token} (h : Token.lex src = .ok tokens) :
    (∃ e, e.kind = .eof ∧ tokens = (Token.parse tokens).root.leaves ++ [e]) ∨
      ∃ front e d F, e.kind = .keyword .kwEnd ∧ d.kind = .symbol .dot ∧
        (Token.parse tokens).root.leaves = front ++ [e, d] ∧
        (Token.parse tokens).root.children = F ++ [.leaf e, .leaf d] := by
  obtain ⟨htokens, hleaves⟩ := leaves_append_rest tokens
  obtain ⟨hend, hstop⟩ := Grammar.parse_end tokens
  rcases hstop with heof | hclosed
  · left
    -- The stream has only one `eof`, and it is the last token.
    have hstream : Token.Stream src 0 (_ ++ _) := htokens.symm ▸ Token.stream_lex h
    have hrest := hstream.rest_eq_eof hleaves heof
    rw [hrest] at htokens
    exact ⟨_, rfl, htokens.symm⟩
  · right
    obtain ⟨front, e, d, F, hfront, he, hd, hF⟩ := hend.closing hclosed
    have hall : (Token.parse tokens).root.leaves ++ (Token.parseState tokens).rest
        = (front ++ [e, d]) ++ (Token.parseState tokens).rest := by
      rw [htokens, List.append_assoc]
      exact hfront
    refine ⟨front, e, d, F, he, hd, List.append_cancel_right hall, ?_⟩
    rw [Token.parse, root_eq hF, Tree.children_ofChildren]

/-- The tree of a text is that of its tokens. -/
theorem ofText_eq {src : Text} {tokens : List Token} (h : Token.lex src = .ok tokens) :
    SyntaxTree.ofText src = .ok (Token.parse tokens) := by
  rw [SyntaxTree.ofText, h]
  rfl

/-- **Lossless trees.** The leaves of the tree of a text are the first `k` of its tokens, and either
only the final `eof` is left, or the last two are the `end` and the `.` that close the unit, which
stand at the end of the root. -/
theorem leaves_eq_take {src : Text} {tokens : List Token} (h : Token.lex src = .ok tokens) :
    ∃ tree k, SyntaxTree.ofText src = .ok tree ∧ tree.root.leaves = tokens.take k ∧
      ((k + 1 = tokens.length ∧ ∃ e, tokens[k]? = some e ∧ e.kind = .eof) ∨
        ∃ e d front, 2 ≤ k ∧ tokens[k - 2]? = some e ∧ tokens[k - 1]? = some d ∧
          e.kind = .keyword .kwEnd ∧ d.kind = .symbol .dot ∧
          tree.root.children = front ++ [.leaf e, .leaf d]) := by
  have htokens := (leaves_append_rest tokens).1
  have htake := List.prefix_iff_eq_take.1 ⟨_, htokens⟩
  refine ⟨Token.parse tokens, (Token.parse tokens).root.leaves.length, ofText_eq h, htake, ?_⟩
  rcases leaves_end h with ⟨e, he, heof⟩ | ⟨front, e, d, F, he, hd, hlast, hF⟩
  · left
    generalize (Token.parse tokens).root.leaves = leaves at heof ⊢
    subst heof
    exact ⟨by simp, e, by simp, he⟩
  · right
    generalize (Token.parseState tokens).rest = after at htokens
    rw [hlast] at htokens ⊢
    have hget : ∀ i : Nat, tokens[i]? = (front ++ e :: d :: after)[i]? := by
      intro i
      rw [← htokens, List.append_assoc]
      rfl
    refine ⟨e, d, F, by simp, ?_, ?_, he, hd, hF⟩
    · rw [hget]
      simp
    · rw [hget]
      simp

/-- A text with a heading that has no name, a bracket that is not closed, and a
name behind its `end.` -/
theorem leaves_eq_take_malformed :
    ∃ tokens, Token.lex "unit ; ( end. x".toList = .ok tokens ∧
      ∃ tree k, SyntaxTree.ofText "unit ; ( end. x".toList = .ok tree ∧
        tree.root.leaves = tokens.take k ∧
        ((k + 1 = tokens.length ∧ ∃ e, tokens[k]? = some e ∧ e.kind = .eof) ∨
          ∃ e d front, 2 ≤ k ∧ tokens[k - 2]? = some e ∧ tokens[k - 1]? = some d ∧
            e.kind = .keyword .kwEnd ∧ d.kind = .symbol .dot ∧
            tree.root.children = front ++ [.leaf e, .leaf d]) := by
  have h : Token.lex "unit ; ( end. x".toList = .ok
      [⟨.keyword .kwUnit, 0, 4⟩, ⟨.symbol .semi, 5, 6⟩, ⟨.symbol .lParen, 7, 8⟩,
       ⟨.keyword .kwEnd, 9, 12⟩, ⟨.symbol .dot, 12, 13⟩, ⟨.ident "x".toList, 14, 15⟩,
       ⟨.eof, 15, 15⟩] := by with_unfolding_all rfl
  exact ⟨_, h, leaves_eq_take h⟩

end PascalAtlas
