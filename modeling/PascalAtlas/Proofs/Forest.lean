import PascalAtlas.Proofs.Progress

/-!
# Forests over stretches of tokens

What a run of the parser adds to the tree. A list of trees is a **forest** over a stretch of tokens
(`Forest`) when its leaves are those tokens, its nodes were finished one inside the other, and a
node without children stands before the token that came next. The parser only ever builds forests:

* a step that succeeds leaves the open frames as they were, and adds to the innermost of them a
  forest over the tokens it consumed;
* a step that fails leaves in addition the frames it had opened, and their children, read from the
  outermost of these frames to the innermost, are a forest too. So the `error` node that a guard
  makes of them holds a forest, in the order of the source.

This is `Runs.grown`, one induction over runs. It takes a parameter `fits`, which says what the
children of a node of each kind may be. To use it, one shows for each place of the grammar that
finishes a node that they are so (`Step.Forms`); facts about all trees then follow by induction on
forests, with no further look at the parser.
-/

namespace PascalAtlas

/-! ## Forests -/

/-- Where the first of some tokens starts; `last` if there is none. -/
def startOf (last : Nat) : List Token → Nat
  | [] => last
  | t :: _ => t.start

/-- **Forests.** `Forest fits last r F r'` says that the trees `F` were built over the tokens that
come first in `r`, and that `r'` is left. -/
inductive Forest (fits : NodeKind → List Tree → Prop) (last : Nat) :
    List Token → List Tree → List Token → Prop
  | nil {r : List Token} : Forest fits last r [] r
  | leaf {t : Token} {r : List Token} (ht : t.kind ≠ .eof) : Forest fits last (t :: r) [.leaf t] r
  | node {kind : NodeKind} {r r' : List Token} {F : List Tree} (inside : Forest fits last r F r')
      (hfits : fits kind F) : Forest fits last r [Tree.ofChildren kind F (startOf last r')] r'
  | append {r r₁ r' : List Token} {F G : List Tree} (left : Forest fits last r F r₁)
      (right : Forest fits last r₁ G r') : Forest fits last r (F ++ G) r'

namespace Tree

/-- The tokens of two lists are those of the first and then those of the second. -/
@[simp] theorem leavesOf_append (F G : List Tree) :
    leavesOf (F ++ G) = leavesOf F ++ leavesOf G := by
  induction F with
  | nil => rfl
  | cons t ts ih => rw [List.cons_append, leavesOf, leavesOf, ih, List.append_assoc]

/-- A node has the leaves of its children, whatever it covers. -/
@[simp] theorem leaves_ofChildren (kind : NodeKind) (F : List Tree) (offset : Nat) :
    (ofChildren kind F offset).leaves = leavesOf F := by
  unfold ofChildren
  repeat' split
  all_goals rfl

@[simp] theorem children_ofChildren (kind : NodeKind) (F : List Tree) (offset : Nat) :
    (ofChildren kind F offset).children = F := by
  unfold ofChildren
  repeat' split
  all_goals rfl

@[simp] theorem kind?_ofChildren (kind : NodeKind) (F : List Tree) (offset : Nat) :
    (ofChildren kind F offset).kind? = some kind := by
  unfold ofChildren
  repeat' split
  all_goals rfl

end Tree

namespace Forest

variable {fits : NodeKind → List Tree → Prop} {last : Nat} {r r' : List Token} {F : List Tree}

/-- **The leaves of a forest are the tokens it was built over**, in their order. -/
theorem leaves_append (h : Forest fits last r F r') : Tree.leavesOf F ++ r' = r := by
  induction h with
  | nil => rfl
  | leaf => rfl
  | node _ _ ih => simpa [Tree.leavesOf] using ih
  | append _ _ ihF ihG => rw [Tree.leavesOf_append, List.append_assoc, ihG, ihF]

/-- No leaf is the end of the tokens. -/
theorem kind_ne_eof (h : Forest fits last r F r') : ∀ t ∈ Tree.leavesOf F, t.kind ≠ .eof := by
  induction h with
  | nil => simp [Tree.leavesOf]
  | leaf ht => simpa [Tree.leavesOf, Tree.leaves] using ht
  | node _ _ ih => simpa [Tree.leavesOf] using ih
  | append _ _ ihF ihG =>
    intro t ht
    rw [Tree.leavesOf_append] at ht
    rcases List.mem_append.1 ht with h | h
    · exact ihF t h
    · exact ihG t h

/-- A forest over at least one token has a tree. -/
theorem ne_nil_of_lt (h : Forest fits last r F r') (hlt : r'.length < r.length) : F ≠ [] := by
  rintro rfl
  rw [← h.leaves_append] at hlt
  exact Nat.lt_irrefl _ hlt

/-- Tokens as they are form a forest. -/
theorem of_leaves (ts : List Token) (hts : ∀ t ∈ ts, t.kind ≠ .eof) :
    Forest fits last (ts ++ r) (ts.map .leaf) r := by
  induction ts with
  | nil => exact .nil
  | cons t ts ih =>
    have hhead : Forest fits last (t :: (ts ++ r)) [.leaf t] (ts ++ r) := .leaf (hts t (by simp))
    exact hhead.append (ih fun u hu => hts u (by simp [hu]))

end Forest

/-! ## Frames -/

/-- Adds trees at the end of the innermost of some frames. -/
def Frame.grow (trees : List Tree) : List Frame → List Frame
  | [] => []
  | f :: fs => { f with children := f.children ++ trees } :: fs

namespace Frame

@[simp] theorem grow_nil_trees (fs : List Frame) : grow [] fs = fs := by
  cases fs <;> simp [grow]

@[simp] theorem grow_cons (trees : List Tree) (kind : NodeKind) (children : List Tree)
    (fs : List Frame) : grow trees (⟨kind, children⟩ :: fs) = ⟨kind, children ++ trees⟩ :: fs := rfl

/-- Trees that are added one after the other are added together. -/
@[simp] theorem grow_grow (F G : List Tree) (fs : List Frame) :
    grow G (grow F fs) = grow (F ++ G) fs := by
  cases fs <;> simp [grow]

/-- Adding trees opens no frame and closes none. -/
@[simp] theorem length_grow (F : List Tree) (fs : List Frame) : (grow F fs).length = fs.length := by
  cases fs <;> rfl

theorem grow_ne_nil {F : List Tree} {fs : List Frame} (h : fs ≠ []) : grow F fs ≠ [] := by
  cases fs with
  | nil => exact h
  | cons f fs => exact List.cons_ne_nil _ _

end Frame

namespace State

variable (s : State)

/-- Adding trees touches the frames only, also where no frame is open. -/
theorem push_eq (trees : List Tree) :
    s.push trees = { s with frames := Frame.grow trees s.frames } := by
  unfold push
  split
  next hs =>
    rw [hs, Frame.grow, ← hs]
  next f fs hs => rw [hs, Frame.grow]

@[simp] theorem frames_push (trees : List Tree) :
    (s.push trees).frames = Frame.grow trees s.frames := by
  rw [push_eq]

/-- What a scan passes is added to the innermost frame. -/
@[simp] theorem frames_advance (n : Nat) :
    (s.advance n).frames = Frame.grow ((s.rest.take n).map .leaf) s.frames := by
  simp [advance]

/-- Before a token that is not the end, `bump` moves it to the innermost frame. -/
theorem bump_eq {s : State} {t : Token} {ts : List Token} (hs : s.rest = t :: ts)
    (ht : t.kind ≠ .eof) :
    s.bump = { s with rest := ts, frames := Frame.grow [.leaf t] s.frames } := by
  have hbump : s.bump = push [.leaf t] { s with rest := ts } := by
    rw [bump, hs]
    exact if_neg ht
  rw [hbump, push_eq]

/-- Finishing a node adds it to the frame around it. -/
theorem frames_closeNode {s : State} {kind : NodeKind} {F : List Tree} {fs : List Frame}
    (hs : s.frames = ⟨kind, F⟩ :: fs) (hfs : fs ≠ []) :
    s.closeNode.frames = Frame.grow [Tree.ofChildren kind F s.offset] fs := by
  cases fs with
  | nil => exact absurd rfl hfs
  | cons g gs => simp [closeNode, hs, Frame.grow]

/-- All frames above some depth become **one `error` frame**, with their children in order. -/
theorem frames_collapse {s : State} {above base : List Frame} (hs : s.frames = above ++ base) :
    (s.collapse base.length).frames = ⟨.error, above.reverse.flatMap (·.children)⟩ :: base := by
  have hlen : s.frames.length - base.length = above.length := by simp [hs]
  simp only [collapse, hlen]
  simp [hs]

/-- The offset of a node without children is that of the next token. -/
theorem offset_eq : s.offset = startOf s.lastStart s.rest := by
  cases s with
  | mk rest => cases rest <;> rfl

end State

/-- A scan passes no end of the tokens. -/
theorem Scan.kind_ne_eof_of_passed (scan : Scan) (nesting : Nesting) (ts : List Token) :
    ∀ t ∈ ts.take (scan.run nesting ts).1, t.kind ≠ .eof := by
  fun_induction Scan.run scan nesting ts with
  | case1 => simp
  | case2 => simp
  | case3 => simp
  | case4 nesting t ts ht _ => simpa using ht
  | case5 nesting t ts ht nesting' _ n stopped hrun ih =>
    rw [hrun] at ih
    simpa [ht] using ih

/-! ## What the moves add -/

namespace State

variable (fits : NodeKind → List Tree → Prop)

/-- `bump` adds a leaf, or nothing at the end of the tokens. -/
theorem exists_bump (s : State) :
    ∃ ts, s.bump.frames = Frame.grow (ts.map .leaf) s.frames ∧ s.rest = ts ++ s.bump.rest ∧
      ∀ t ∈ ts, t.kind ≠ .eof := by
  unfold bump
  split
  next hs => exact ⟨[], by simp, rfl, by simp⟩
  next t ts hs =>
    by_cases ht : t.kind = .eof
    · rw [if_pos ht]
      exact ⟨[], by simp, rfl, by simp⟩
    · rw [if_neg ht]
      exact ⟨[t], by simp, by simp [hs], by simpa using ht⟩

/-- A single move adds a forest of one leaf, or an empty one. -/
theorem forest_bump (s : State) :
    ∃ F, s.bump.frames = Frame.grow F s.frames ∧ Forest fits s.lastStart s.rest F s.bump.rest := by
  obtain ⟨ts, hframes, hrest, hts⟩ := exists_bump s
  exact ⟨_, hframes, hrest ▸ .of_leaves ts hts⟩

/-- What a scan passes is added as leaves. -/
theorem forest_advance (s : State) (scan : Scan) :
    Forest fits s.lastStart s.rest ((s.rest.take (scan.run {} s.rest).1).map .leaf)
      (s.advance (scan.run {} s.rest).1).rest := by
  rw [rest_advance]
  have hpassed := scan.kind_ne_eof_of_passed {} s.rest
  generalize (scan.run {} s.rest).1 = n at hpassed ⊢
  have h : Forest fits s.lastStart (s.rest.take n ++ s.rest.drop n) ((s.rest.take n).map .leaf)
      (s.rest.drop n) := .of_leaves _ hpassed
  rwa [List.take_append_drop] at h

variable {fits}

/-- **The `error` frame of a recovery**, just before it is finished. It stands on the frames that
were open when the guarded step began. Its children are those of the frames the step had left open,
the outermost first, and then the tokens that the recovery passes. -/
theorem exists_recover (recovery : Scan) (error : ParseError) {entry s : State}
    {above base : List Frame} (hs : s.frames = above ++ base)
    (hlen : base.length = entry.frames.length) :
    ∃ (s₁ : State) (passed : List Token), recover recovery entry error s = s₁.closeNode ∧
      s₁.frames = ⟨.error, above.reverse.flatMap (·.children) ++ passed.map .leaf⟩ :: base ∧
      s₁.lastStart = s.lastStart ∧ s.rest = passed ++ s₁.rest ∧ ∀ t ∈ passed, t.kind ≠ .eof := by
  let s₁ := ({ s with errors := s.errors ++ [error] } : State).collapse entry.frames.length
  let s₂ := s₁.advance (recovery.run {} s₁.rest).1
  have hs₁ : s₁.frames = ⟨.error, above.reverse.flatMap (·.children)⟩ :: base := by
    show (State.collapse entry.frames.length _).frames = _
    rw [← hlen]
    exact frames_collapse hs
  let scanned := s.rest.take (recovery.run {} s.rest).1
  have hframes : s₂.frames = ⟨.error, above.reverse.flatMap (·.children)
      ++ scanned.map .leaf⟩ :: base := by
    rw [frames_advance, hs₁, Frame.grow_cons]
    rfl
  have hrest : s.rest = scanned ++ s₂.rest := by
    rw [rest_advance]
    exact (List.take_append_drop _ _).symm
  have hlast : s₂.lastStart = s.lastStart := lastStart_eq_of_marks (marks_advance s₁ _)
  have hscanned : ∀ t ∈ scanned, t.kind ≠ .eof := recovery.kind_ne_eof_of_passed {} s.rest
  by_cases hstill : s₂.rest.length = entry.rest.length
  · -- Nothing has been consumed since the step began, so one more token is.
    obtain ⟨ts, hts, hrest', hkinds⟩ := exists_bump s₂
    refine ⟨s₂.bump, scanned ++ ts, ?_, ?_, ?_, ?_, ?_⟩
    · simp only [recover, s₂, s₁] at hstill ⊢
      rw [if_pos hstill]
    · rw [hts, hframes, Frame.grow_cons, List.map_append, List.append_assoc]
    · rw [lastStart_eq_of_marks (marks_bump s₂), hlast]
    · rw [hrest, hrest', List.append_assoc]
    · exact List.forall_mem_append.2 ⟨hscanned, hkinds⟩
  · refine ⟨s₂, scanned, ?_, hframes, hlast, hrest, hscanned⟩
    simp only [recover, s₂, s₁] at hstill ⊢
    rw [if_neg hstill]

/-- **A recovery adds one `error` node** to the frames that were open when the
guarded step began. -/
theorem forest_recover (recovery : Scan) (error : ParseError) {entry s : State}
    {above base : List Frame} {r : List Token} (hs : s.frames = above ++ base) (hbase : base ≠ [])
    (hlen : base.length = entry.frames.length) (herror : ∀ F, fits .error F)
    (habove : Forest fits s.lastStart r (above.reverse.flatMap (·.children)) s.rest) :
    ∃ node, (recover recovery entry error s).frames = Frame.grow [node] base ∧
      Forest fits s.lastStart r [node] (recover recovery entry error s).rest := by
  obtain ⟨s₁, passed, hrecover, hframes, hlast, hrest, hpassed⟩ :=
    exists_recover recovery error hs hlen
  have hforest : Forest fits s.lastStart s.rest (passed.map .leaf) s₁.rest :=
    hrest ▸ .of_leaves passed hpassed
  rw [hrecover, rest_closeNode]
  refine ⟨_, frames_closeNode hframes hbase, ?_⟩
  rw [offset_eq, hlast]
  exact .node (habove.append hforest) (herror _)

end State

/-! ## What runs add -/

namespace Step

variable (grammar : Rule → Step) (fits : NodeKind → List Tree → Prop)

/-- What a run from state `s` has added when it ends. -/
def Grown (s : State) : Outcome → Prop
  | .ok s' =>
    ∃ F, s'.frames = Frame.grow F s.frames ∧ Forest fits s.lastStart s.rest F s'.rest
  | .fail _ s' =>
    ∃ above F r, s'.frames = above ++ Frame.grow F s.frames ∧
      Forest fits s.lastStart s.rest F r ∧
      Forest fits s.lastStart r (above.reverse.flatMap (·.children)) s'.rest
  | .stuck _ => False

/-- **Where nodes are finished, they fit.** `P` is what is known of the state in which the step
begins, and it is carried to each place at which a node is finished: through tests, into nodes, and
past the steps that come before. -/
def Forms : (State → Prop) → Step → Prop
  | P, .seq a c =>
    a.Forms P ∧ c.Forms fun s' => ∃ b s, P s ∧ Runs grammar b a s (.ok s')
  | P, .branch test yes no =>
    yes.Forms (fun s => P s ∧ test.holds s = true) ∧ no.Forms fun s => P s ∧ test.holds s = false
  | _, .loop test body => body.Forms fun s => test.holds s = true
  | P, .ifMoved body moved still =>
    body.Forms P ∧ moved.Forms (fun _ => True) ∧ still.Forms fun _ => True
  | P, .node kind body =>
    body.Forms (fun s => ∃ s₀, P s₀ ∧ s = s₀.openNode kind) ∧
    ∀ b s s' F, P s → Runs grammar b body (s.openNode kind) (.ok s') →
      s'.frames = ⟨kind, F⟩ :: s.frames → Forest fits s.lastStart s.rest F s'.rest → fits kind F
  | P, .guarded _ body => body.Forms P
  | _, _ => True

variable {grammar fits} {a : Step} {s : State} {o : Outcome} {b : Nat}

/-- No run changes where the last token begins. -/
theorem Runs.lastStart_eq (h : Runs grammar b a s o) : o.state.lastStart = s.lastStart := by
  induction h with
  | bump => exact State.lastStart_eq_of_marks (State.marks_bump _)
  | take => exact State.lastStart_eq_of_marks (State.marks_advance _ _)
  | takeClosed_ok => exact State.lastStart_eq_of_marks (State.marks_advance _ _)
  | takeClosed_fail => exact State.lastStart_eq_of_marks (State.marks_advance _ _)
  | seq_ok _ _ ih₁ ih₂ => exact ih₂.trans ih₁
  | seq_fail _ ih => exact ih
  | branch_yes _ _ ih => exact ih
  | branch_no _ _ ih => exact ih
  | loop_round _ _ _ _ ih₁ ih₂ => exact ih₂.trans ih₁
  | loop_fail _ _ _ ih => exact ih
  | ifMoved_moved _ _ _ ih₁ ih₂ => exact ih₂.trans ih₁
  | ifMoved_still _ _ _ ih₁ ih₂ => exact ih₂.trans ih₁
  | ifMoved_fail _ ih => exact ih
  | node_ok _ ih => exact (State.lastStart_eq_of_marks (State.marks_closeNode _)).trans ih
  | node_fail _ ih => exact ih
  | guarded_ok _ ih => exact ih
  | guarded_fail _ ih =>
    exact (State.lastStart_eq_of_marks (State.marks_recover _ _ _ _)).trans ih
  | call _ _ ih => exact ih
  | _ => rfl

/-- A forest, and then what a further run adds. -/
theorem Grown.after {s₁ : State} {F : List Tree} (hframes : s₁.frames = Frame.grow F s.frames)
    (hforest : Forest fits s.lastStart s.rest F s₁.rest) (hlast : s₁.lastStart = s.lastStart)
    (h : Grown fits s₁ o) : Grown fits s o := by
  cases o with
  | ok s' =>
    obtain ⟨G, hG, hforest'⟩ := h
    refine ⟨F ++ G, ?_, ?_⟩
    · rw [hG, hframes, Frame.grow_grow]
    · exact hforest.append (hlast ▸ hforest')
  | fail e s' =>
    obtain ⟨above, G, r, hG, hforest', habove⟩ := h
    refine ⟨above, F ++ G, r, ?_, ?_, hlast ▸ habove⟩
    · rw [hG, hframes, Frame.grow_grow]
    · exact hforest.append (hlast ▸ hforest')
  | stuck s' => exact h

/-- **Runs build forests.** The frames that are open when a step begins stay open, and gain a
forest; a failure leaves a forest in the frames above them as well. -/
theorem Runs.grown (herror : ∀ F, fits .error F)
    (hrules : ∀ rule, (grammar rule).Forms grammar fits fun _ => True)
    (h : Runs grammar b a s o) :
    ∀ P, a.Forms grammar fits P → P s → s.frames ≠ [] → Grown fits s o := by
  -- What one part of a step adds comes before what the part after it adds.
  have chain : ∀ {s s₁ : State} {o : Outcome} {a : Step} {b : Nat}, Runs grammar b a s (.ok s₁) →
      s.frames ≠ [] → Grown fits s (.ok s₁) → (s₁.frames ≠ [] → Grown fits s₁ o) →
      Grown fits s o := by
    rintro s s₁ o a b hrun hs ⟨F, hF, hforest⟩ hnext
    refine Grown.after hF hforest hrun.lastStart_eq (hnext ?_)
    rw [hF]
    exact Frame.grow_ne_nil hs
  have hsame : ∀ {s s' : State}, s'.frames = s.frames → s'.rest = s.rest →
      Grown fits s (.ok s') := by
    intro s s' hframes hrest
    exact ⟨[], by rw [hframes, Frame.grow_nil_trees], hrest ▸ .nil⟩
  induction h with
  | skip => exact fun _ _ _ _ => hsame rfl rfl
  | report => exact fun _ _ _ _ => hsame rfl rfl
  | enter => exact fun _ _ _ _ => hsame rfl rfl
  | noteBodiless => exact fun _ _ _ _ => hsame rfl rfl
  | noteClosed => exact fun _ _ _ _ => hsame rfl rfl
  | bump => exact fun _ _ _ _ => State.forest_bump fits _
  | take => exact fun _ _ _ _ => ⟨_, State.frames_advance _ _, State.forest_advance fits _ _⟩
  | takeClosed_ok =>
    exact fun _ _ _ _ => ⟨_, State.frames_advance _ _, State.forest_advance fits _ _⟩
  | takeClosed_fail =>
    intro _ _ _ _
    exact ⟨[], _, _, by simp, State.forest_advance fits _ _, .nil⟩
  | @fail _ _ s =>
    intro _ _ _ _
    exact ⟨[], [], s.rest, by simp, .nil, .nil⟩
  | seq_ok first _ ih₁ ih₂ =>
    intro P hforms hP hs
    refine chain first hs (ih₁ P hforms.1 hP hs) fun hs₁ => ?_
    exact ih₂ _ hforms.2 ⟨_, _, hP, first⟩ hs₁
  | seq_fail _ ih => exact fun P hforms hP hs => ih P hforms.1 hP hs
  | branch_yes holds _ ih => exact fun P hforms hP hs => ih _ hforms.1 ⟨hP, holds⟩ hs
  | branch_no holds _ ih => exact fun P hforms hP hs => ih _ hforms.2 ⟨hP, holds⟩ hs
  | loop_done => exact fun _ _ _ _ => hsame rfl rfl
  | loop_round holds round _ _ ih₁ ih₂ =>
    intro P hforms _ hs
    refine chain round hs (ih₁ _ hforms holds hs) fun hs₁ => ?_
    exact ih₂ (fun _ => True) hforms trivial hs₁
  | loop_fail holds _ _ ih => exact fun P hforms _ hs => ih _ hforms holds hs
  | ifMoved_moved first _ _ ih₁ ih₂ =>
    intro P hforms hP hs
    exact chain first hs (ih₁ P hforms.1 hP hs) fun hs₁ => ih₂ _ hforms.2.1 trivial hs₁
  | ifMoved_still first _ _ ih₁ ih₂ =>
    intro P hforms hP hs
    exact chain first hs (ih₁ P hforms.1 hP hs) fun hs₁ => ih₂ _ hforms.2.2 trivial hs₁
  | ifMoved_fail _ ih => exact fun P hforms hP hs => ih P hforms.1 hP hs
  | @node_ok b kind body s s₁ inside ih =>
    intro P hforms hP hs
    obtain ⟨F, hF, hforest⟩ := ih _ hforms.1 ⟨s, hP, rfl⟩ (List.cons_ne_nil _ _)
    have hframes : s₁.frames = ⟨kind, F⟩ :: s.frames := hF
    refine ⟨_, State.frames_closeNode hframes hs, ?_⟩
    have hlast : s₁.lastStart = s.lastStart := inside.lastStart_eq
    rw [State.rest_closeNode, State.offset_eq, hlast]
    exact .node hforest (hforms.2 b s s₁ F hP inside hframes hforest)
  | @node_fail b kind body s s₁ e inside ih =>
    intro P hforms hP hs
    obtain ⟨above, F, r, hF, hforest, habove⟩ := ih _ hforms.1 ⟨s, hP, rfl⟩ (List.cons_ne_nil _ _)
    -- The frame of the node itself is the outermost of those left open.
    refine ⟨above ++ [⟨kind, F⟩], [], s.rest, ?_, .nil, ?_⟩
    · rw [hF, Frame.grow_nil_trees, List.append_assoc]
      rfl
    · have hall : Forest fits s.lastStart s.rest
          (F ++ above.reverse.flatMap (·.children)) s₁.rest := hforest.append habove
      simpa using hall
  | guarded_ok _ ih => exact ih
  | @guarded_fail b recovery body s s₁ e inside ih =>
    intro P hforms hP hs
    obtain ⟨above, F, r, hF, hforest, habove⟩ := ih P hforms hP hs
    -- The error node gathers what the failed step has left in the frames above those of `s`.
    have hlast : s₁.lastStart = s.lastStart := inside.lastStart_eq
    rw [← hlast] at habove
    obtain ⟨node, hnode, herrorForest⟩ := State.forest_recover recovery e hF (Frame.grow_ne_nil hs)
      (Frame.length_grow F s.frames) herror habove
    refine ⟨F ++ [node], ?_, ?_⟩
    · rw [hnode, Frame.grow_grow]
    · exact hforest.append (hlast ▸ herrorForest)
  | call _ _ ih => exact fun _ _ _ hs => ih _ (hrules _) trivial hs

/-- Where nothing is asked of the nodes, every step will do. -/
theorem forms_trivial (a : Step) : ∀ P, a.Forms grammar (fun _ _ => True) P := by
  induction a with
  | seq a c iha ihc => exact fun P => ⟨iha P, ihc _⟩
  | branch test yes no ihyes ihno => exact fun P => ⟨ihyes _, ihno _⟩
  | loop test body ih => exact fun P => ih _
  | ifMoved body moved still ihbody ihmoved ihstill =>
    exact fun P => ⟨ihbody P, ihmoved _, ihstill _⟩
  | node kind body ih => exact fun P => ⟨ih _, fun _ _ _ _ _ _ _ _ => trivial⟩
  | guarded recovery body ih => exact fun P => ih P
  | _ => exact fun P => trivial

/-- Every run adds a forest, whatever its nodes are made of. -/
theorem Runs.grown_trivial (h : Runs grammar b a s o) (hs : s.frames ≠ []) :
    Grown (fun _ _ => True) s o :=
  h.grown (fun _ => trivial) (fun _ => forms_trivial _ _) (fun _ => True)
    (forms_trivial _ _) trivial hs

/-- A step that succeeds leaves the open frames as they were, but for what it
adds to the innermost. -/
theorem Runs.exists_grow {s' : State} (h : Runs grammar b a s (.ok s')) (hs : s.frames ≠ []) :
    ∃ F, s'.frames = Frame.grow F s.frames := by
  obtain ⟨F, hF, -⟩ := h.grown_trivial hs
  exact ⟨F, hF⟩

/-- A step that fails leaves these frames in the same way, and those it had opened above them. -/
theorem Runs.exists_above {e : ParseError} {s' : State} (h : Runs grammar b a s (.fail e s'))
    (hs : s.frames ≠ []) :
    ∃ above F, s'.frames = above ++ Frame.grow F s.frames := by
  obtain ⟨above, F, -, hF, -⟩ := h.grown_trivial hs
  exact ⟨above, F, hF⟩

end Step

/-! ## The tree of a list of tokens -/

/-- **The whole tree is a forest over what has been consumed**: when the parser ends, the frame of
the unit is the only one open. -/
theorem exists_forest {fits : NodeKind → List Tree → Prop} (herror : ∀ F, fits .error F)
    (hrules : ∀ rule, (Grammar.rules rule).Forms Grammar.rules fits fun _ => True)
    (hunit : Grammar.unit.Forms Grammar.rules fits fun _ => True) (tokens : List Token) :
    ∃ F, (Token.parseState tokens).frames = [⟨.unit, F⟩] ∧
      Forest fits (State.initial tokens).lastStart tokens F (Token.parseState tokens).rest := by
  obtain ⟨F, hF, hforest⟩ := (Grammar.runs_unit tokens).grown herror hrules (fun _ => True) hunit
    trivial (List.cons_ne_nil _ _)
  exact ⟨F, hF, hforest⟩

/-- The root has the children of the frame that is left open. -/
theorem root_eq {s : State} {F : List Tree} (hs : s.frames = [⟨.unit, F⟩]) :
    s.root = Tree.ofChildren .unit F s.offset := by
  have hclosed : s.closeAll = s := by simp [State.closeAll, hs, Nat.repeat]
  rw [State.root, hclosed, hs]

end PascalAtlas
