import Mathlib.Data.List.Forall2
import PascalAtlas.Proofs.Forest

/-!
# Open frames

A parse function opens a frame for each node it begins, closes it when the node is finished, and
returns in the middle of its work when something fails. No function looks at how many frames are
open, and closing the outermost frame does nothing, so a frame too many or too few in one function
would not be noticed there: other nodes would end up in the wrong place.

It does not happen. Whatever frames are open when a function begins, **they are kept**
(`Frame.Kept`): they are open when it returns, in their order, and their children come first among
the children they have then. Success leaves no other frame open; a failure leaves further frames
above them. A guard takes these frames up: it always succeeds, leaves as many frames open as there
were, and the frame on top of them has one `error` node more than the failure left in it.

The frames of a run are told by `Step.Runs.grown_trivial` and by `State.exists_recover`; what is
left is that every parse function has a run, from every state, and this is asked of each function by
itself (`Grammar.ParseFunction.steady`).
-/

namespace PascalAtlas

/-! ## Frames that are kept -/

/-- Frames that are **kept**: as many, of the same kinds, and with the children they
had before all others. -/
def Frame.Kept (fs fs' : List Frame) : Prop :=
  List.Forall₂ (fun f f' => f'.kind = f.kind ∧ f.children <+: f'.children) fs fs'

namespace Frame

theorem kept_refl (fs : List Frame) : Kept fs fs :=
  List.forall₂_same.2 fun _ _ => ⟨rfl, List.prefix_refl _⟩

/-- Trees that are added come behind the children there were. -/
theorem kept_grow (F : List Tree) (fs : List Frame) : Kept fs (grow F fs) := by
  cases fs with
  | nil => exact .nil
  | cons f fs => exact .cons ⟨rfl, List.prefix_append _ _⟩ (kept_refl fs)

end Frame

/-- What is open when a function returns that began with some frames. -/
def Outcome.Keeps (fs : List Frame) : Outcome → Prop
  | .ok s => Frame.Kept fs s.frames
  | .fail _ s => ∃ above kept, s.frames = above ++ kept ∧ Frame.Kept fs kept
  | .stuck _ => False

/-- What a guard leaves open in the state `s'`, after what it guards has failed in the
state `s`: the frames above those of `fs` have become **one `error` node** at the end of
the innermost of them. -/
def State.Gathers (fs : List Frame) (s s' : State) : Prop :=
  ∃ (above : List Frame) (top : Frame) (outer : List Frame) (node : Tree) (passed : List Token),
    s.frames = above ++ top :: outer ∧ Frame.Kept fs (top :: outer) ∧ node.kind? = some .error ∧
    node.children = above.reverse.flatMap (·.children) ++ passed.map .leaf ∧
    s'.frames = { top with children := top.children ++ [node] } :: outer

/-- A guard leaves as many frames open as there were. -/
theorem State.Gathers.length_eq {fs : List Frame} {s s' : State} (h : State.Gathers fs s s') :
    s'.frames.length = fs.length := by
  obtain ⟨above, top, outer, node, passed, -, hkept, -, -, hframes⟩ := h
  rw [hframes, hkept.length_eq]
  rfl

namespace Step.Runs

variable {grammar : Rule → Step} {b : Nat} {a : Step} {s s' : State} {o : Outcome}

/-- **Every run keeps the frames that were open.** -/
theorem keeps (h : Runs grammar b a s o) (hs : s.frames ≠ []) : o.Keeps s.frames := by
  cases o with
  | ok s' =>
    obtain ⟨F, hF⟩ := h.exists_grow hs
    show Frame.Kept s.frames s'.frames
    rw [hF]
    exact Frame.kept_grow F _
  | fail e s' =>
    obtain ⟨above, F, hF⟩ := h.exists_above hs
    exact ⟨above, _, hF, Frame.kept_grow F _⟩
  | stuck s' => exact h.grown_trivial hs

/-- **A recovery gathers what a failure has left open.** -/
theorem gathers {e : ParseError} (h : Runs grammar b a s (.fail e s')) (hs : s.frames ≠ [])
    (recovery : Scan) :
    State.Gathers s.frames s' (State.recover recovery s e s') := by
  obtain ⟨above, F, hF⟩ := h.exists_above hs
  obtain ⟨s₁, passed, hrecover, hframes, -⟩ :=
    State.exists_recover recovery e hF (Frame.length_grow F s.frames)
  have hclosed := State.frames_closeNode hframes (Frame.grow_ne_nil hs)
  have hkept := Frame.kept_grow F s.frames
  -- The node goes into the innermost of the frames that were open, as the failure has left it.
  obtain ⟨top, outer, htop⟩ := List.exists_cons_of_ne_nil (Frame.grow_ne_nil hs (F := F))
  rw [htop] at hF hkept hclosed
  rw [hrecover]
  exact ⟨above, top, outer, _, passed, hF, hkept, Tree.kind?_ofChildren ..,
    Tree.children_ofChildren .., hclosed⟩

end Step.Runs

namespace Grammar

open Step (errorToken expect expectIdent)

/-! ## The parse functions -/

/-- **The parse functions**: one for each construct of the language, those they share, and the
guards around them. -/
inductive ParseFunction : Step → Prop
  -- Units and their declarations.
  | unit : ParseFunction unit
  | unitItem : ParseFunction unitItem
  | unitHeader : ParseFunction unitHeader
  | usesClause : ParseFunction usesClause
  | typeSection : ParseFunction typeSection
  | typeDecl : ParseFunction typeDecl
  | classType : ParseFunction classType
  | member : ParseFunction member
  | fieldDecl : ParseFunction fieldDecl
  | propertyDecl : ParseFunction propertyDecl
  | routineHeading : ParseFunction routineHeading
  | formalParams : ParseFunction formalParams
  | routine : ParseFunction routine
  | localDecls : ParseFunction localDecls
  | unitSection : ParseFunction unitSection
  | typeUpTo (isStop : TokenKind → Bool) : ParseFunction (typeUpTo isStop)
  -- Statements.
  | statement : ParseFunction statement
  | conditional : ParseFunction conditional
  | headed (kind : NodeKind) : ParseFunction (headed kind)
  | compound : ParseFunction compound
  | caseStatement : ParseFunction caseStatement
  | repetition : ParseFunction repetition
  | tryStatement : ParseFunction tryStatement
  | assembler : ParseFunction assembler
  | statements (stops : List TokenKind) : ParseFunction (statements stops)
  | expression (stops : List TokenKind) : ParseFunction (expression stops)
  -- What they share.
  | dottedName : ParseFunction dottedName
  | bracketed (opening closing : Symbol) : ParseFunction (bracketed opening closing)
  | throughEnd : ParseFunction (.takeClosed .throughEnd .missingEnd)
  | upToSemi : ParseFunction (.take .upToSemi)
  | run (stops : List TokenKind) : ParseFunction (.take (.expression stops))
  | expect (kind : TokenKind) : ParseFunction (expect kind)
  | expectIdent : ParseFunction expectIdent
  | errorToken (cause : ParseCause) : ParseFunction (errorToken cause)
  | guarded {f : Step} (recovery : Scan) (h : ParseFunction f) : ParseFunction (.guarded recovery f)

theorem steady_statement : Step.Steady rules statement := by
  refine ⟨steady_compound, steady_conditional, steady_headed _, steady_headed _, steady_headed _,
    steady_caseStatement, steady_repetition, steady_tryStatement, steady_assembler,
    trivial, trivial⟩

/-- In every parse function each round of a loop consumes a token. -/
theorem ParseFunction.steady {f : Step} (h : ParseFunction f) : Step.Steady rules f := by
  induction h with
  | unit => exact steady_unit
  | unitItem => exact steady_unitItem
  | unitHeader => exact steady_unitHeader
  | usesClause => exact steady_usesClause
  | typeSection => exact steady_typeSection
  | typeDecl => exact steady_typeDecl
  | classType => exact steady_classType
  | member => exact steady_member
  | fieldDecl => exact steady_fieldDecl
  | propertyDecl => exact steady_propertyDecl
  | routineHeading => exact steady_routineHeading
  | routine => exact steady_routine
  | localDecls => exact steady_localDecls
  | unitSection => exact steady_unitSection
  | statement => exact steady_statement
  | conditional => exact steady_conditional
  | headed kind => exact steady_headed kind
  | compound => exact steady_compound
  | caseStatement => exact steady_caseStatement
  | repetition => exact steady_repetition
  | tryStatement => exact steady_tryStatement
  | assembler => exact steady_assembler
  | statements stops => exact steady_statements stops
  | dottedName => exact steady_dottedName
  | expect kind => exact steady_expect kind
  | expectIdent => exact steady_expectIdent
  | errorToken cause => exact ⟨trivial, trivial⟩
  | guarded recovery _ ih => exact ih
  -- These have no loop and no part that has one.
  | formalParams => trivial
  | typeUpTo isStop => trivial
  | expression stops => trivial
  | bracketed opening closing => trivial
  | throughEnd => trivial
  | upToSemi => trivial
  | run stops => trivial

/-- **Every parse function returns**, from every state. -/
theorem ParseFunction.exists_runs {f : Step} (h : ParseFunction f) (s : State) :
    ∃ o, Step.Runs rules (s.rest.length + 1) f s o :=
  Step.exists_runs (fun rule s _ => exists_runs_rule rule s) f s h.steady fun _ =>
    Nat.lt_succ_self _

/-- **Open frames are kept by every parse function**, from every state with at least one open frame.
On success the same frames are open, and their children are kept at the front; on failure there are
only further frames above them. And a guard around the function always succeeds, with as many frames
open as there were. If the function has failed, there is one `error` node more at the end of the
innermost frame than the failure left there, and it holds all that was in the further frames. -/
theorem frames_kept {f : Step} (hf : ParseFunction f) {s : State} (hs : s.frames ≠ []) {n : Nat}
    (hn : s.rest.length < n) (recovery : Scan) :
    (f.run (Rule.run rules n) s).Keeps s.frames ∧
    ∃ s', (Step.guarded recovery f).run (Rule.run rules n) s = .ok s' ∧
      s'.frames.length = s.frames.length ∧
      (∀ s₁, f.run (Rule.run rules n) s = .ok s₁ → s' = s₁) ∧
      ∀ e s₁, f.run (Rule.run rules n) s = .fail e s₁ → State.Gathers s.frames s₁ s' := by
  obtain ⟨o, ho⟩ := hf.exists_runs s
  -- How deep the rules may call each other does not matter, as long as it is more than the tokens.
  have hrun : f.run (Rule.run rules n) s = o := ho.run_eq n hn
  rw [hrun]
  refine ⟨ho.keeps hs, ?_⟩
  rcases ho.ok_or_fail with ⟨s₁, rfl⟩ | ⟨e, s₁, rfl⟩
  · have hguarded : Step.Runs rules (s.rest.length + 1) (.guarded recovery f) s (.ok s₁) :=
      .guarded_ok ho
    refine ⟨s₁, hguarded.run_eq n hn, (ho.keeps hs).length_eq.symm,
      fun s₂ heq => Outcome.ok.inj heq, ?_⟩
    intro e s₂ heq
    cases heq
  · have hguarded : Step.Runs rules (s.rest.length + 1) (.guarded recovery f) s
        (.ok (State.recover recovery s e s₁)) :=
      .guarded_fail ho
    have hgathers := ho.gathers hs recovery
    refine ⟨_, hguarded.run_eq n hn, hgathers.length_eq, ?_, ?_⟩
    · intro s₂ heq
      cases heq
    · intro e' s₂ heq
      obtain ⟨rfl, rfl⟩ := Outcome.fail.inj heq
      exact hgathers

/-- The state inside the block of a unit before `if x then begin y`, where the tokens end. -/
def unfinishedIf : State where
  rest := [⟨.keyword .kwIf, 6, 8⟩, ⟨.ident ['x'], 9, 10⟩, ⟨.keyword .kwThen, 11, 15⟩,
    ⟨.keyword .kwBegin, 16, 21⟩, ⟨.ident ['y'], 22, 23⟩]
  frames := [⟨.compound, [.leaf ⟨.keyword .kwBegin, 0, 5⟩]⟩, ⟨.unit, []⟩]
  lastStart := 22

/-- The inner block has no `end`, so the conditional fails with two frames above
those that were open. -/
theorem frames_kept_unfinished :
    ParseFunction conditional ∧ unfinishedIf.frames ≠ [] ∧ unfinishedIf.rest.length < 6 ∧
    (conditional.run (Rule.run rules 6) unfinishedIf).Keeps unfinishedIf.frames ∧
    ∃ e s₁ s', conditional.run (Rule.run rules 6) unfinishedIf = .fail e s₁ ∧
      s₁.frames.map Frame.kind = [.compound, .ifStmt, .compound, .unit] ∧
      (Step.guarded .toStatementEnd conditional).run (Rule.run rules 6) unfinishedIf = .ok s' ∧
      s'.frames.length = 2 ∧ State.Gathers unfinishedIf.frames s₁ s' := by
  have hframes : unfinishedIf.frames ≠ [] := List.cons_ne_nil _ _
  have hrest : unfinishedIf.rest.length < 6 := by decide
  obtain ⟨hkeeps, s', hguarded, hlength, -, hgathers⟩ :=
    frames_kept .conditional hframes hrest .toStatementEnd
  exact ⟨.conditional, hframes, hrest, hkeeps, _, _, s', rfl, rfl, hguarded, hlength,
    hgathers _ _ rfl⟩

end Grammar

end PascalAtlas
