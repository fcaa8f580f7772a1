import Mathlib.Computability.Language
import Mathlib.Order.CompletePartialOrder
import PascalAtlas.Proofs.Filled

/-!
# What a step adds

A step that succeeds adds trees to the innermost frame. Which trees these can be is said with a
**language** over trees (`Step.Adds`), and the language of a step is made of those of its parts in
the way the step is: one step and then another is a product, a choice is a sum, a loop is a star.
What is inside a node does not matter here: a node is one tree, whatever it was made of. So a rule
that calls itself needs no induction.

A guard turns a failure into one `error` node. That this node is **all** that is added takes a step
whose failures leave nothing in the frame in which it began, and a step that does all its work
inside a node is one (`Step.Contained`).
-/

namespace PascalAtlas

open Computability

/-! ## Languages of trees -/

namespace Production

/-- One leaf whose kind satisfies a test. -/
def leaf (p : TokenKind → Prop) : Language Tree :=
  {F | ∃ t : Token, p t.kind ∧ F = [.leaf t]}

/-- A reserved word. -/
def word (k : Keyword) : Language Tree :=
  leaf (· = .keyword k)

/-- A sign. -/
def sign (s : Symbol) : Language Tree :=
  leaf (· = .symbol s)

/-- A name. -/
def name : Language Tree :=
  leaf fun k => k.isIdent = true

/-- Leaves and nothing else. -/
def leaves : Language Tree :=
  (leaf fun _ => True)∗

/-- One node of a kind that satisfies a test. -/
def partOf (p : NodeKind → Prop) : Language Tree :=
  {F | ∃ n kind, Tree.kind? n = some kind ∧ p kind ∧ F = [n]}

/-- One node of a kind. -/
def part (kind : NodeKind) : Language Tree :=
  partOf (· = kind)

/-- Something or nothing. -/
def optional (L : Language Tree) : Language Tree :=
  1 + L

/-- One leaf is a list of leaves. -/
theorem leaf_le_leaves (p : TokenKind → Prop) : leaf p ≤ leaves := by
  refine le_trans ?_ (le_kstar (a := leaf fun _ => True))
  rintro F ⟨t, -, rfl⟩
  exact ⟨t, trivial, rfl⟩

/-- Tokens alone make leaves alone. -/
theorem map_leaf_mem_leaves (ts : List Token) : ts.map Tree.leaf ∈ leaves := by
  refine Language.mem_kstar.2 ⟨ts.map fun t => [.leaf t], ?_, ?_⟩
  · induction ts with
    | nil => rfl
    | cons t ts ih => simpa using ih
  · intro F hF
    obtain ⟨t, -, rfl⟩ := List.mem_map.1 hF
    exact ⟨t, trivial, rfl⟩

/-- Leaves and then leaves are leaves. -/
theorem leaves_mul_leaves : leaves * leaves = leaves :=
  kstar_mul_kstar _

theorem leaves_mul_leaves_mul (L : Language Tree) : leaves * (leaves * L) = leaves * L := by
  rw [← mul_assoc, leaves_mul_leaves]

end Production

open Production

namespace Step

variable (grammar : Rule → Step)

/-- A step that begins where `P` holds and succeeds **adds** trees of a language. -/
def Adds (P : State → Prop) (a : Step) (L : Language Tree) : Prop :=
  ∀ b s s', P s → s.frames ≠ [] → Runs grammar b a s (.ok s') →
    ∃ F ∈ L, s'.frames = Frame.grow F s.frames

/-- A step that begins where `P` holds and fails leaves the frames that were
open **as they were**. -/
def Contained (P : State → Prop) (a : Step) : Prop :=
  ∀ b s s' e, P s → s.frames ≠ [] → Runs grammar b a s (.fail e s') →
    ∃ above, s'.frames = above ++ s.frames

variable {grammar} {P Q : State → Prop} {a c : Step} {L M N : Language Tree}

/-! ## Single steps -/

/-- A step adds **no more** from fewer states, and no more than a larger language. -/
theorem Adds.mono (h : Adds grammar Q a L) (hPQ : ∀ s, P s → Q s) (hLM : L ≤ M) :
    Adds grammar P a M := by
  intro b s s' hs hframes hrun
  obtain ⟨F, hF, hgrow⟩ := h b s s' (hPQ s hs) hframes hrun
  exact ⟨F, hLM hF, hgrow⟩

theorem Adds.le (h : Adds grammar P a L) (hLM : L ≤ M) : Adds grammar P a M :=
  h.mono (fun _ hs => hs) hLM

/-- Where nothing is asked of the trees, every step will do. -/
theorem adds_top : Adds grammar P a ⊤ := by
  intro b s s' _ hframes hrun
  obtain ⟨F, hF⟩ := hrun.exists_grow hframes
  exact ⟨F, trivial, hF⟩

/-- A step that leaves the frames as they are adds nothing. -/
theorem adds_of_frames_eq (h : ∀ b s s', Runs grammar b a s (.ok s') → s'.frames = s.frames) :
    Adds grammar P a 1 := by
  intro b s s' _ _ hrun
  exact ⟨[], Language.nil_mem_one, by rw [h b s s' hrun, Frame.grow_nil_trees]⟩

/-- Doing nothing adds nothing. -/
theorem adds_skip : Adds grammar P .skip 1 :=
  adds_of_frames_eq fun b s s' hrun => by cases hrun; rfl

theorem adds_report (cause : ParseCause) : Adds grammar P (.report cause) 1 :=
  adds_of_frames_eq fun b s s' hrun => by cases hrun; rfl

/-- A failure never succeeds, so any language will do. -/
theorem adds_fail (cause : ParseCause) : Adds grammar P (.fail cause) L := by
  intro b s s' _ _ hrun
  cases hrun

/-- Before a token that is not the end, `bump` adds it. -/
theorem adds_bump {p : TokenKind → Prop} (h : ∀ s, P s → p s.kind ∧ s.kind ≠ .eof) :
    Adds grammar P .bump (leaf p) := by
  intro b s s' hs _ hrun
  cases hrun
  obtain ⟨hp, heof⟩ := h s hs
  obtain ⟨t, ts, hts⟩ := List.exists_cons_of_ne_nil (State.ne_nil_of_kind heof)
  have hkind : s.kind = t.kind := by rw [State.kind, hts, headKind]
  rw [hkind] at hp heof
  exact ⟨[.leaf t], ⟨t, hp, rfl⟩, by rw [State.bump_eq hts heof]⟩

/-- What a scan passes is added as leaves. -/
theorem adds_take (scan : Scan) : Adds grammar P (.take scan) leaves := by
  intro b s s' _ _ hrun
  cases hrun
  exact ⟨_, map_leaf_mem_leaves _, State.frames_advance _ _⟩

theorem adds_takeClosed (scan : Scan) (cause : ParseCause) :
    Adds grammar P (.takeClosed scan cause) leaves := by
  intro b s s' _ _ hrun
  cases hrun
  exact ⟨_, map_leaf_mem_leaves _, State.frames_advance _ _⟩

/-- A node is **one tree**, whatever is in it. -/
theorem adds_node (kind : NodeKind) : Adds grammar P (.node kind a) (part kind) := by
  intro b s s' _ hframes hrun
  cases hrun with
  | @node_ok _ _ _ _ s₁ inside =>
    obtain ⟨F, hF⟩ := inside.exists_grow (List.cons_ne_nil _ _)
    have hs₁ : s₁.frames = ⟨kind, F⟩ :: s.frames := hF
    exact ⟨_, ⟨_, kind, Tree.kind?_ofChildren kind F s₁.offset, rfl, rfl⟩,
      State.frames_closeNode hs₁ hframes⟩

/-- **The node of a step fits** if whatever the step adds does. -/
theorem Adds.forms_node {fits : NodeKind → List Tree → Prop} {kind : NodeKind}
    (h : Adds grammar (fun s => ∃ s₀, P s₀ ∧ s = s₀.openNode kind) a L)
    (hfits : ∀ F ∈ L, fits kind F)
    (hinside : a.Forms grammar fits fun s => ∃ s₀, P s₀ ∧ s = s₀.openNode kind) :
    (Step.node kind a).Forms grammar fits P := by
  refine ⟨hinside, fun b s s' F hs hrun hframes _ => ?_⟩
  obtain ⟨G, hG, hs'⟩ := h b (s.openNode kind) s' ⟨s, hs, rfl⟩ (List.cons_ne_nil _ _) hrun
  rw [hframes] at hs'
  obtain rfl : F = G := congrArg Frame.children (List.cons.inj hs').1
  exact hfits F hG

/-! ## Steps made of steps -/

/-- One step and then another add a **product**. -/
theorem Adds.seq (ha : Adds grammar P a L) (hc : Adds grammar Q c M)
    (hQ : ∀ b s s', P s → Runs grammar b a s (.ok s') → Q s') :
    Adds grammar P (.seq a c) (L * M) := by
  intro b s s' hs hframes hrun
  cases hrun with
  | @seq_ok _ _ _ _ s₁ _ first second =>
    obtain ⟨F, hF, hs₁⟩ := ha b s s₁ hs hframes first
    have hframes₁ : s₁.frames ≠ [] := by
      rw [hs₁]
      exact Frame.grow_ne_nil hframes
    obtain ⟨G, hG, hs'⟩ := hc b s₁ s' (hQ b s s₁ hs first) hframes₁ second
    exact ⟨F ++ G, Language.append_mem_mul hF hG, by rw [hs', hs₁, Frame.grow_grow]⟩

/-- Where the second step needs to know nothing. -/
theorem Adds.before (ha : Adds grammar P a L) (hc : Adds grammar (fun _ => True) c M) :
    Adds grammar P (.seq a c) (L * M) :=
  ha.seq hc fun _ _ _ _ _ => trivial

/-- Behind a step of which nothing is asked. -/
theorem Adds.after (h : Adds grammar (fun _ => True) c (⊤ * L)) :
    Adds grammar P (.seq a c) (⊤ * L) := by
  refine (adds_top.before h).le ?_
  rw [← mul_assoc]
  exact mul_le_mul_left le_top L

/-- Both branches add to one language. -/
theorem Adds.branch {test : Test} (ha : Adds grammar (fun s => P s ∧ test.holds s = true) a L)
    (hc : Adds grammar (fun s => P s ∧ test.holds s = false) c L) :
    Adds grammar P (.branch test a c) L := by
  intro b s s' hs hframes hrun
  cases hrun with
  | branch_yes holds run => exact ha b s s' ⟨hs, holds⟩ hframes run
  | branch_no holds run => exact hc b s s' ⟨hs, holds⟩ hframes run

/-- A step that is taken under a test adds its language or nothing. -/
theorem Adds.when {test : Test} (h : Adds grammar (fun s => P s ∧ test.holds s = true) a L) :
    Adds grammar P (Step.when test a) (optional L) :=
  .branch (h.le le_add_self) (adds_skip.le le_self_add)

/-- A choice adds what each of its cases may add. -/
theorem adds_choose {cases : List (Test × Step)} {otherwise : Step}
    (hcases : ∀ c ∈ cases, Adds grammar (fun s => P s ∧ c.1.holds s = true) c.2 L)
    (hother : Adds grammar P otherwise L) : Adds grammar P (choose cases otherwise) L := by
  intro b s s' hs hframes hrun
  refine hrun.of_choose (fun c hc holds run => ?_) fun run => ?_
  · exact hcases c hc b s s' ⟨hs, holds⟩ hframes run
  · exact hother b s s' hs hframes run

/-- **A loop adds a star.** The induction is on the rounds, each of which adds a
word of the language. -/
theorem Adds.loop {test : Test} (h : Adds grammar (fun s => test.holds s = true) a L) :
    Adds grammar P (.loop test a) L∗ := by
  intro b s s' _ hframes hrun
  refine (hrun.loop_invariant (I := fun s₁ => ∃ F ∈ L∗, s₁.frames = Frame.grow F s.frames) ?_ ?_).1
  · exact ⟨[], Language.nil_mem_kstar L, by rw [Frame.grow_nil_trees]⟩
  · rintro s₁ s₂ ⟨F, hF, hs₁⟩ holds round
    have hframes₁ : s₁.frames ≠ [] := by
      rw [hs₁]
      exact Frame.grow_ne_nil hframes
    obtain ⟨G, hG, hs₂⟩ := h b s₁ s₂ holds hframes₁ round
    refine ⟨F ++ G, ?_, by rw [hs₂, hs₁, Frame.grow_grow]⟩
    exact Set.mem_of_mem_of_subset (Language.append_mem_mul hF hG) (kstar_mul_le_kstar (a := L))

/-- What follows a step that moved, or did not, comes behind what the step has added. -/
theorem Adds.ifMoved {body moved still : Step} (hbody : Adds grammar P body L)
    (hmoved : Adds grammar (fun _ => True) moved M)
    (hstill : Adds grammar (fun _ => True) still M) :
    Adds grammar P (.ifMoved body moved still) (L * M) := by
  intro b s s' hs hframes hrun
  have hafter {s₁ : State} {next : Step} (hnext : Adds grammar (fun _ => True) next M)
      (first : Runs grammar b body s (.ok s₁)) (second : Runs grammar b next s₁ (.ok s')) :
      ∃ F ∈ L * M, s'.frames = Frame.grow F s.frames :=
    (hbody.before hnext) b s s' hs hframes (.seq_ok first second)
  cases hrun with
  | ifMoved_moved first _ second => exact hafter hmoved first second
  | ifMoved_still first _ second => exact hafter hstill first second

/-- A call adds what the rule adds, wherever it is called from. -/
theorem adds_call {rule : Rule} (h : Adds grammar (fun _ => True) (grammar rule) L) :
    Adds grammar P (.call rule) L := by
  intro b s s' _ hframes hrun
  cases hrun with
  | call _ body => exact h _ s s' trivial hframes body

/-! ## Failures -/

/-- A step without failures leaves nothing behind. -/
theorem contained_skip : Contained grammar P .skip := by
  intro b s s' e _ _ hrun
  cases hrun

/-- A failure inside a node leaves the frame of the node open, above those that were there. -/
theorem contained_node (kind : NodeKind) : Contained grammar P (.node kind a) := by
  intro b s s' e _ _ hrun
  cases hrun with
  | node_fail inside =>
    obtain ⟨above, F, hs'⟩ := inside.exists_above (List.cons_ne_nil _ _)
    refine ⟨above ++ [⟨kind, F⟩], ?_⟩
    rw [hs', List.append_assoc]
    rfl

/-- A choice leaves nothing behind if none of its cases does. -/
theorem contained_choose {cases : List (Test × Step)} {otherwise : Step}
    (hcases : ∀ c ∈ cases, Contained grammar P c.2) (hother : Contained grammar P otherwise) :
    Contained grammar P (choose cases otherwise) := by
  intro b s s' e hs hframes hrun
  refine hrun.of_choose (fun c hc _ run => ?_) fun run => ?_
  · exact hcases c hc b s s' e hs hframes run
  · exact hother b s s' e hs hframes run

theorem contained_call {rule : Rule} (h : Contained grammar (fun _ => True) (grammar rule)) :
    Contained grammar P (.call rule) := by
  intro b s s' e _ hframes hrun
  cases hrun with
  | call _ body => exact h _ s s' e trivial hframes body

/-- The frames after a recovery: the frames above the kept ones have become one `error` node. -/
theorem frames_recover (recovery : Scan) (error : ParseError) {entry s : State} {above : List Frame}
    (hs : s.frames = above ++ entry.frames) (hentry : entry.frames ≠ []) :
    ∃ F ∈ part .error, (State.recover recovery entry error s).frames
      = Frame.grow F entry.frames := by
  obtain ⟨s₁, passed, hrecover, hframes, -⟩ := State.exists_recover recovery error hs rfl
  have hclosed := State.frames_closeNode hframes hentry
  rw [hrecover]
  exact ⟨_, ⟨_, .error, Tree.kind?_ofChildren .error _ s₁.offset, rfl, rfl⟩, hclosed⟩

/-- A guarded step adds what it adds when it succeeds, or **one `error` node**. -/
theorem Adds.guarded {recovery : Scan} (h : Adds grammar P a L) (hfail : Contained grammar P a) :
    Adds grammar P (.guarded recovery a) (L + part .error) := by
  intro b s s' hs hframes hrun
  cases hrun with
  | guarded_ok inside =>
    obtain ⟨F, hF, hs'⟩ := h b s s' hs hframes inside
    exact ⟨F, .inl hF, hs'⟩
  | guarded_fail inside =>
    obtain ⟨above, habove⟩ := hfail b s _ _ hs hframes inside
    obtain ⟨F, hF, hs'⟩ := frames_recover recovery _ habove hframes
    exact ⟨F, .inr hF, hs'⟩

/-! ## Steps that add leaves only -/

/-- Whether a step consumes tokens and does **nothing else** to the tree. -/
def plain : Step → Bool
  | .seq a c => a.plain && c.plain
  | .branch _ yes no => yes.plain && no.plain
  | .loop _ body => body.plain
  | .ifMoved .. | .node .. | .guarded .. | .call .. => false
  | _ => true

/-- A step without nodes adds leaves alone. -/
theorem adds_plain (h : a.plain = true) : Adds grammar P a leaves := by
  induction a generalizing P with
  | bump =>
    intro b s s' _ hframes hrun
    -- At the end of the tokens nothing is consumed.
    by_cases heof : s.kind = .eof
    · cases hrun
      exact ⟨[], Language.nil_mem_kstar _, by rw [State.bump_eof heof, Frame.grow_nil_trees]⟩
    · have hbump : Adds grammar (fun s => s.kind ≠ .eof) .bump (leaf fun _ => True) :=
        adds_bump fun _ hs => ⟨trivial, hs⟩
      exact (hbump.le (leaf_le_leaves _)) b s s' heof hframes hrun
  | take scan => exact adds_take scan
  | takeClosed scan cause => exact adds_takeClosed scan cause
  | fail cause => exact adds_fail cause
  | seq a c iha ihc =>
    rw [plain, Bool.and_eq_true] at h
    exact ((iha h.1).before (ihc h.2)).le (kstar_mul_kstar _).le
  | branch test yes no ihyes ihno =>
    rw [plain, Bool.and_eq_true] at h
    exact .branch (ihyes h.1) (ihno h.2)
  | loop test body ih => exact (Adds.loop (ih h)).le (kstar_idem _).le
  | ifMoved => cases h
  | node => cases h
  | guarded => cases h
  | call => cases h
  | _ => exact (adds_of_frames_eq fun b s s' hrun => by cases hrun; rfl).le one_le_kstar

end Step

end PascalAtlas
