import PascalAtlas.Proofs.Local
import PascalAtlas.Proofs.Span

/-!
# Every error is reported

What could not be understood stands in an `error` node, and what is said about it stands in the list
of errors. The two are written in different places. A guard records the error of a step that failed
and gathers what the step left behind in one node, with whatever `error` nodes are in it already; an
error token is recorded first and put into its node after that; and a missing `;` is recorded
without a node. Still they **agree**: there are as many errors as there are `error` nodes in the
tree and places at which a `;` is missing.

Every error is recorded at the token before which the parser stands, and no run moves back, so the
errors follow the source (`Step.Runs.recorded`). A missing `;` is reported between two statements,
both of which have a token. So the places at which one is missing are **apart**, and this is what
the loop over the statements has to show on its own (`State.Reports.separator`).
-/

namespace PascalAtlas

/-! ## Counting nodes -/

/-- Whether a tree is an `error` node. -/
def Tree.isError (t : Tree) : Bool :=
  t.kind? == some .error

/-- The number of **`error` nodes** among some trees and below them. -/
def Tree.errorCount (F : List Tree) : Nat :=
  (descendantsOf F).countP isError

namespace Tree

/-- The `error` nodes of two lists are counted together. -/
@[simp] theorem errorCount_append (F G : List Tree) :
    errorCount (F ++ G) = errorCount F + errorCount G := by
  rw [errorCount, descendantsOf_append, List.countP_append]
  rfl

@[simp] theorem errorCount_nil : errorCount [] = 0 := by
  rw [errorCount, descendantsOf]
  rfl

/-- Leaves have no `error` node. -/
@[simp] theorem errorCount_leaves (ts : List Token) : errorCount (ts.map .leaf) = 0 := by
  induction ts with
  | nil => exact errorCount_nil
  | cons t ts ih =>
    rw [List.map_cons, errorCount, descendantsOf]
    exact ih

/-- A node adds itself, if it is an `error` node, to those of its children. -/
theorem errorCount_ofChildren (kind : NodeKind) (F : List Tree) (offset : Nat) :
    errorCount [ofChildren kind F offset] = errorCount F + if kind = .error then 1 else 0 := by
  rw [errorCount, descendantsOf_ofChildren, List.countP_cons, isError, kind?_ofChildren]
  simp [errorCount]

end Tree

/-- The number of `error` nodes in the children of some frames. -/
def Frame.errorCount (fs : List Frame) : Nat :=
  Tree.errorCount (fs.flatMap Frame.children)

namespace Frame

theorem errorCount_nil : errorCount [] = 0 :=
  Tree.errorCount_nil

/-- Those of two lists of frames, too. -/
theorem errorCount_append (fs gs : List Frame) :
    errorCount (fs ++ gs) = errorCount fs + errorCount gs := by
  rw [errorCount, List.flatMap_append, Tree.errorCount_append]
  rfl

@[simp] theorem errorCount_cons (f : Frame) (fs : List Frame) :
    errorCount (f :: fs) = Tree.errorCount f.children + errorCount fs := by
  rw [errorCount, List.flatMap_cons, Tree.errorCount_append]
  rfl

/-- Trees that are added bring their `error` nodes. -/
theorem errorCount_grow (F : List Tree) {fs : List Frame} (hfs : fs ≠ []) :
    errorCount (grow F fs) = errorCount fs + Tree.errorCount F := by
  obtain ⟨f, fs, rfl⟩ := List.exists_cons_of_ne_nil hfs
  rw [grow, errorCount_cons, errorCount_cons, Tree.errorCount_append]
  omega

/-- What some frames hold together, they hold also when it is put into one. -/
theorem errorCount_flatMap (fs : List Frame) :
    Tree.errorCount (fs.reverse.flatMap (·.children)) = errorCount fs := by
  induction fs with
  | nil => rfl
  | cons f fs ih =>
    rw [List.reverse_cons, List.flatMap_append, Tree.errorCount_append, ih, errorCount_cons,
      List.flatMap_cons, List.flatMap_nil, List.append_nil]
    omega

end Frame

namespace State

variable {src : Text} {s s₁ s' : State}

/-- The number of `error` nodes that the parser has built so far. -/
def errorCount (s : State) : Nat :=
  Frame.errorCount s.frames

/-- Consuming tokens adds no `error` node. -/
theorem errorCount_advance (n : Nat) (hs : s.frames ≠ []) :
    (s.advance n).errorCount = s.errorCount := by
  rw [errorCount, frames_advance, Frame.errorCount_grow _ hs, Tree.errorCount_leaves]
  rfl

theorem errorCount_bump (hs : s.frames ≠ []) : s.bump.errorCount = s.errorCount := by
  by_cases hkind : s.kind = .eof
  · rw [bump_eof hkind]
  · obtain ⟨t, ts, hrest⟩ := List.exists_cons_of_ne_nil (ne_nil_of_kind hkind)
    have ht : t.kind ≠ .eof := by rwa [kind, hrest] at hkind
    have hframes : s.bump.frames = Frame.grow ([t].map .leaf) s.frames := by
      rw [bump_eq hrest ht]; rfl
    rw [errorCount, hframes, Frame.errorCount_grow _ hs, Tree.errorCount_leaves]
    rfl

/-- A finished node is counted with what is in it. -/
theorem errorCount_closeNode {kind : NodeKind} {F : List Tree} {fs : List Frame}
    (hs : s.frames = ⟨kind, F⟩ :: fs) (hfs : fs ≠ []) :
    s.closeNode.errorCount = s.errorCount + if kind = .error then 1 else 0 := by
  have hopen : s.errorCount = Tree.errorCount F + Frame.errorCount fs := by
    rw [errorCount, hs, Frame.errorCount_cons]
  rw [errorCount, frames_closeNode hs hfs, Frame.errorCount_grow _ hfs,
    Tree.errorCount_ofChildren, hopen]
  omega

/-- Nor does beginning a node. -/
theorem errorCount_openNode (kind : NodeKind) : (s.openNode kind).errorCount = s.errorCount := by
  rw [errorCount, openNode, Frame.errorCount_cons, Tree.errorCount_nil, Nat.zero_add]
  rfl

/-- **A recovery adds one `error` node**, and keeps all that are in what it gathers. -/
theorem errorCount_recover (recovery : Scan) (error : ParseError) {entry : State}
    (hentry : entry.frames ≠ []) (hlength : entry.frames.length ≤ s.frames.length) :
    (recover recovery entry error s).errorCount = s.errorCount + 1 := by
  have hsplit : s.frames = s.frames.take (s.frames.length - entry.frames.length)
      ++ s.frames.drop (s.frames.length - entry.frames.length) := (List.take_append_drop _ _).symm
  have hkept : (s.frames.drop (s.frames.length - entry.frames.length)).length
      = entry.frames.length := by
    rw [List.length_drop]
    omega
  generalize s.frames.take _ = above at hsplit
  generalize s.frames.drop _ = kept at hsplit hkept
  obtain ⟨s₁, passed, hrecover, hframes, -⟩ := exists_recover recovery error hsplit hkept
  -- The frame of the node holds what the frames it gathers held, and leaves.
  have hcount : s₁.errorCount = s.errorCount := by
    rw [errorCount, hframes, Frame.errorCount_cons, Tree.errorCount_append,
      Frame.errorCount_flatMap, Tree.errorCount_leaves, Nat.add_zero, errorCount, hsplit,
      Frame.errorCount_append]
  have hne : kept ≠ [] := by
    refine List.ne_nil_of_length_pos ?_
    rw [hkept]
    exact List.length_pos_iff.2 hentry
  rw [hrecover, errorCount_closeNode hframes hne, hcount, if_pos rfl]

/-! ## States in a stream -/

/-- A state that stands **in the stream** of a text, with a frame open. -/
def InStream (src : Text) (s : State) : Prop :=
  s.frames ≠ [] ∧ ∃ pos, Token.Stream src pos s.rest

theorem InStream.openNode (h : s.InStream src) (kind : NodeKind) : (s.openNode kind).InStream src :=
  ⟨List.cons_ne_nil _ _, h.2⟩

/-- One state **leads to** another in the stream of a text: some of the tokens
have been consumed. -/
structure Leads (src : Text) (s s' : State) : Prop where
  first : s.InStream src
  last : s'.InStream src
  rest : s'.rest <:+ s.rest

/-- The offset of a state never goes back. -/
theorem Leads.offset_le (h : Leads src s s') : s.offset ≤ s'.offset := by
  obtain ⟨pos, hstream⟩ := h.first.2
  obtain ⟨pos', hstream'⟩ := h.last.2
  obtain ⟨t, ts, hrest, -⟩ := hstream.eq_cons
  obtain ⟨u, us, hrest', -⟩ := hstream'.eq_cons
  rw [hrest] at hstream
  have hmem : u ∈ t :: ts := hrest ▸ h.rest.subset (by simp [hrest'])
  have hle := (hstream.at_start.le_start u hmem).1
  rw [offset_eq, offset_eq, hrest, hrest']
  exact hle

/-- Where tokens have been consumed, the offset has moved on. -/
theorem Leads.offset_lt (h : Leads src s s') (hlt : s'.rest.length < s.rest.length) :
    s.offset < s'.offset := by
  obtain ⟨pos, hstream⟩ := h.first.2
  obtain ⟨pos', hstream'⟩ := h.last.2
  obtain ⟨u, us, hrest', -⟩ := hstream'.eq_cons
  obtain ⟨front, hfront⟩ := h.rest
  cases front with
  | nil =>
    rw [← hfront] at hlt
    exact absurd hlt (Nat.lt_irrefl _)
  | cons t front =>
    rw [← hfront] at hstream
    obtain ⟨pos₁, -, hstream₁, hbefore⟩ :=
      hstream.drop_front (by rw [hrest']; exact List.cons_ne_nil _ _)
    obtain ⟨ht, hstop⟩ := hbefore t (List.mem_cons_self ..)
    rw [hrest'] at hstream₁
    have hu := (hstream₁.le_start u (List.mem_cons_self ..)).1
    rw [offset_eq, offset_eq, ← hfront, hrest']
    show t.start < u.start
    omega

end State

/-! ## What a run records -/

/-- An error **at a token**: it tells what stands there, and where. -/
def ParseError.IsAt (e : ParseError) (t : Token) : Prop :=
  e.found = t.kind ∧ e.start = t.start ∧ e.stop = t.stop

/-- Whether an error says that a `;` is missing between two statements. -/
def ParseError.missesSemi (e : ParseError) : Bool :=
  e.cause == .separator

namespace State

variable {src : Text} {s s₁ s₂ s' : State} {new : List ParseError}

/-- An error is met **at the next token**, and begins where it does. -/
theorem InStream.isAt_errorHere (h : s.InStream src) (cause : ParseCause) :
    ∃ t ∈ s.rest, (s.errorHere cause).IsAt t ∧ (s.errorHere cause).start = s.offset := by
  obtain ⟨pos, hstream⟩ := h.2
  obtain ⟨t, ts, hrest, -⟩ := hstream.eq_cons
  refine ⟨t, by simp [hrest], ?_⟩
  rw [errorHere, offset, hrest]
  exact ⟨⟨rfl, rfl, rfl⟩, rfl⟩

theorem cause_errorHere (s : State) (cause : ParseCause) : (s.errorHere cause).cause = cause := by
  unfold errorHere
  split <;> rfl

/-- **What has been recorded** between two states. -/
structure Reports (s s' : State) (new : List ParseError) : Prop where
  errors_eq : s'.errors = s.errors ++ new
  /-- Every error is at one of the tokens that were to come, … -/
  isAt : ∀ e ∈ new, ∃ t ∈ s.rest, e.IsAt t
  /-- … which lies between the two states, … -/
  between : ∀ e ∈ new, s.offset ≤ e.start ∧ e.start ≤ s'.offset
  /-- … and if a `;` is missing there, it is neither the first one nor the one that comes next. -/
  inside : ∀ e ∈ new, e.missesSemi = true → s.offset < e.start ∧ e.start < s'.offset
  ordered : new.Pairwise fun e f => e.start ≤ f.start
  apart : (new.filter ParseError.missesSemi).Pairwise fun e f => e.start < f.start
  /-- Every other error has its node. -/
  count : s'.errorCount = s.errorCount + new.countP (!·.missesSemi)

/-- A move that records nothing reports nothing. -/
theorem reports_nil (herrors : s'.errors = s.errors) (hcount : s'.errorCount = s.errorCount) :
    s.Reports s' [] where
  errors_eq := by rw [herrors, List.append_nil]
  isAt := by simp
  between := by simp
  inside := by simp
  ordered := .nil
  apart := .nil
  count := by rw [hcount]; rfl

/-- An error with its node. -/
theorem reports_errorHere {cause : ParseCause} (hleads : Leads src s s')
    (hcause : cause ≠ .separator) (herrors : s'.errors = s.errors ++ [s.errorHere cause])
    (hcount : s'.errorCount = s.errorCount + 1) :
    s.Reports s' [s.errorHere cause] := by
  obtain ⟨t, ht, hisAt, hstart⟩ := hleads.first.isAt_errorHere cause
  have hoffset := hleads.offset_le
  -- Such an error misses no `;`, so of the parts about those nothing is left to show.
  have hother : (s.errorHere cause).missesSemi = false := by
    rw [ParseError.missesSemi, cause_errorHere]
    simpa using hcause
  constructor
  · exact herrors
  · intro e he
    rw [List.mem_singleton.1 he]
    exact ⟨t, ht, hisAt⟩
  · intro e he
    rw [List.mem_singleton.1 he]
    omega
  · intro e he hmisses
    rw [List.mem_singleton.1 he, hother] at hmisses
    cases hmisses
  · exact List.pairwise_singleton _ _
  · rw [List.filter_cons_of_neg (by simp [hother])]
    exact .nil
  · rw [hcount, List.countP_cons, hother]
    rfl

/-- What is recorded in two runs, one after the other, and **between them**: at most one missing
`;`, at a token that neither the first run began with nor the second one ended before. -/
theorem Reports.around {mid more : List ParseError} (h : s.Reports s₁ new)
    (h' : s₂.Reports s' more) (hleads : Leads src s s₁) (hleads' : Leads src s₁ s')
    (hrest : s₂.rest = s₁.rest) (hoffset₂ : s₂.offset = s₁.offset)
    (herrors : s₂.errors = s₁.errors ++ mid) (hcount : s₂.errorCount = s₁.errorCount)
    (hone : mid.length ≤ 1)
    (hmid : ∀ e ∈ mid, (∃ t ∈ s₁.rest, e.IsAt t) ∧ e.missesSemi = true ∧ e.start = s₁.offset
      ∧ s.offset < s₁.offset ∧ s₁.offset < s'.offset) : s.Reports s' (new ++ (mid ++ more)) := by
  have hoffset := hleads.offset_le
  have hoffset' := hleads'.offset_le
  -- All three lists are in order around the place where the first run ended. A missing `;` of
  -- either run is not there.
  have hbefore : ∀ e ∈ new, e.start ≤ s₁.offset ∧ (e.missesSemi = true → e.start < s₁.offset) :=
    fun e he => ⟨(h.between e he).2, fun hmisses => (h.inside e he hmisses).2⟩
  have hafter : ∀ f ∈ more, s₁.offset ≤ f.start ∧ (f.missesSemi = true → s₁.offset < f.start) :=
    hoffset₂ ▸ fun f hf => ⟨(h'.between f hf).1, fun hmisses => (h'.inside f hf hmisses).1⟩
  have hsingle {R : ParseError → ParseError → Prop} {es : List ParseError} (hes : es.length ≤ 1) :
      es.Pairwise R := by
    cases es with
    | nil => exact .nil
    | cons e es =>
      obtain rfl : es = [] := List.eq_nil_of_length_eq_zero
        (Nat.le_zero.1 (Nat.le_of_succ_le_succ hes))
      exact List.pairwise_singleton _ _
  constructor
  · rw [h'.errors_eq, herrors, h.errors_eq, List.append_assoc, List.append_assoc]
  · intro e he
    rw [List.mem_append, List.mem_append] at he
    rcases he with he | he | he
    · exact h.isAt e he
    · obtain ⟨t, ht, hisAt⟩ := (hmid e he).1
      exact ⟨t, hleads.rest.subset ht, hisAt⟩
    · obtain ⟨t, ht, hisAt⟩ := h'.isAt e he
      exact ⟨t, hleads.rest.subset (hrest ▸ ht), hisAt⟩
  · intro e he
    rw [List.mem_append, List.mem_append] at he
    rcases he with he | he | he
    · have hbetween := h.between e he
      omega
    · have hstart := (hmid e he).2.2
      omega
    · have hbetween := h'.between e he
      omega
  · intro e he hmisses
    rw [List.mem_append, List.mem_append] at he
    rcases he with he | he | he
    · have hinside := h.inside e he hmisses
      omega
    · have hstart := (hmid e he).2.2
      omega
    · have hinside := h'.inside e he hmisses
      omega
  · refine List.pairwise_append.2
      ⟨h.ordered, List.pairwise_append.2 ⟨hsingle hone, h'.ordered, ?_⟩, ?_⟩
    · intro e he f hf
      have hstart := (hmid e he).2.2.1
      have hlater := (hafter f hf).1
      omega
    · intro e he f hf
      have hearlier := (hbefore e he).1
      rcases List.mem_append.1 hf with hf | hf
      · have hstart := (hmid f hf).2.2.1
        omega
      · have hlater := (hafter f hf).1
        omega
  · rw [List.filter_append, List.filter_append]
    refine List.pairwise_append.2 ⟨h.apart, List.pairwise_append.2 ⟨?_, h'.apart, ?_⟩, ?_⟩
    · exact hsingle (Nat.le_trans (List.length_filter_le _ _) hone)
    · intro e he f hf
      obtain ⟨hf, hmisses⟩ := List.mem_filter.1 hf
      have hstart := (hmid e (List.mem_filter.1 he).1).2.2.1
      have hlater := (hafter f hf).2 hmisses
      omega
    · intro e he f hf
      obtain ⟨he, hmisses⟩ := List.mem_filter.1 he
      have hearlier := (hbefore e he).2 hmisses
      rcases List.mem_append.1 hf with hf | hf
      · have hstart := (hmid f (List.mem_filter.1 hf).1).2.2.1
        omega
      · obtain ⟨hf, hmisses'⟩ := List.mem_filter.1 hf
        have hlater := (hafter f hf).2 hmisses'
        omega
  · have hnone : mid.countP (!·.missesSemi) = 0 := List.countP_eq_zero.2 fun e he => by
      simp [(hmid e he).2.1]
    rw [h'.count, hcount, h.count, List.countP_append, List.countP_append, hnone,
      Nat.zero_add, Nat.add_assoc]

/-- What is recorded in two runs, one after the other. -/
theorem Reports.append {more : List ParseError} (h : s.Reports s₁ new) (h' : s₁.Reports s' more)
    (hleads : Leads src s s₁) (hleads' : Leads src s₁ s') : s.Reports s' (new ++ more) :=
  h.around h' hleads hleads' rfl rfl (List.append_nil _).symm rfl (Nat.zero_le 1) (by simp)

/-- A missing `;` is reported **between two tokens that are consumed**: one
before it, one after it. -/
theorem Reports.separator {more : List ParseError} (h : s.Reports s₁ new)
    (h' : (s₁.report .separator).Reports s' more) (hleads : Leads src s s₁)
    (hlt : s₁.rest.length < s.rest.length) (hleads' : Leads src s₁ s')
    (hlt' : s'.rest.length < s₁.rest.length) :
    s.Reports s' (new ++ s₁.errorHere .separator :: more) := by
  obtain ⟨t, ht, hisAt, hstart⟩ := hleads'.first.isAt_errorHere .separator
  have hmiss : (s₁.errorHere .separator).missesSemi = true := by
    rw [ParseError.missesSemi, cause_errorHere]
    rfl
  refine h.around h' hleads hleads' rfl rfl rfl rfl (Nat.le_refl 1) fun e he => ?_
  rw [List.mem_singleton.1 he]
  exact ⟨⟨t, ht, hisAt⟩, hmiss, hstart, hleads.offset_lt hlt, hleads'.offset_lt hlt'⟩

/-- States that differ only in what is not looked at have the same to report. -/
theorem Reports.congr {t t' : State} (h : s.Reports s' new) (herrors : t.errors = s.errors)
    (hrest : t.rest = s.rest) (hoffset : t.offset = s.offset)
    (hcount : t.errorCount = s.errorCount) (herrors' : t'.errors = s'.errors)
    (hoffset' : t'.offset = s'.offset) (hcount' : t'.errorCount = s'.errorCount) :
    t.Reports t' new where
  errors_eq := by rw [herrors', h.errors_eq, herrors]
  isAt := hrest ▸ h.isAt
  between := by rw [hoffset, hoffset']; exact h.between
  inside := by rw [hoffset, hoffset']; exact h.inside
  ordered := h.ordered
  apart := h.apart
  count := by rw [hcount', h.count, hcount]

end State

/-! ## What runs record -/

namespace Step

open Grammar (rules listEnd statementRound)

/-- Steps that record an error only with a node for it. The one other place is the round of a
list of statements. -/
def Orderly : Step → Prop
  | .takeClosed _ cause => cause ≠ .separator
  | .fail cause => cause ≠ .separator
  | .report _ => False
  | .seq a c =>
    (a.Orderly ∧ c.Orderly) ∨ ∃ cause, cause ≠ .separator ∧ a = .report cause
      ∧ c = .node .error .bump
  | .branch _ yes no => yes.Orderly ∧ no.Orderly
  | .loop test body =>
    body.Orderly ∨ ∃ stops, test = .not (listEnd stops) ∧ body = statementRound stops
  | .ifMoved body moved still => body.Orderly ∧ moved.Orderly ∧ still.Orderly
  | .node kind body => kind ≠ .error ∧ body.Orderly
  | .guarded _ body => body.Orderly
  | _ => True

/-- What a run has recorded when it ends. A failure is not recorded yet, and is at the token
where the run ended. -/
def Recorded (s : State) (o : Outcome) : Prop :=
  (∃ new, s.Reports o.state new) ∧
    ∀ e s', o = .fail e s' → ∃ cause, cause ≠ .separator ∧ e = s'.errorHere cause

/-- What a round of a list of statements has recorded: perhaps, **as the last thing**,
that a `;` is missing. -/
def RoundRecorded (src : Text) (stops : List TokenKind) (s : State) (o : Outcome) : Prop :=
  Recorded s o ∨ ∃ s₁, Recorded s (.ok s₁) ∧ State.Leads src s s₁ ∧ s₁.rest.length < s.rest.length ∧
    (listEnd stops).holds s₁ = false ∧ o = .ok (s₁.report .separator)

variable {src : Text} {a : Step} {s s₁ s' : State} {o : Outcome} {b : Nat}

/-- A run that changes neither errors nor nodes has nothing to record. -/
theorem recorded_same (herrors : s'.errors = s.errors) (hcount : s'.errorCount = s.errorCount) :
    Recorded s (.ok s') :=
  ⟨⟨[], State.reports_nil herrors hcount⟩, by rintro _ _ ⟨⟩⟩

/-- A failure carries its error, which is not recorded yet. -/
theorem recorded_fail {cause : ParseCause} (hcause : cause ≠ .separator)
    (herrors : s'.errors = s.errors) (hcount : s'.errorCount = s.errorCount) :
    Recorded s (.fail (s'.errorHere cause) s') := by
  refine ⟨⟨[], State.reports_nil herrors hcount⟩, ?_⟩
  rintro _ _ ⟨⟩
  exact ⟨cause, hcause, rfl⟩

/-- What a run records, and then what a further run records. -/
theorem Recorded.after (h : Recorded s (.ok s₁)) (h' : Recorded s₁ o)
    (hleads : State.Leads src s s₁) (hleads' : State.Leads src s₁ o.state) : Recorded s o := by
  obtain ⟨⟨new, hnew⟩, -⟩ := h
  obtain ⟨⟨more, hmore⟩, hfail⟩ := h'
  exact ⟨⟨new ++ more, hnew.append hmore hleads hleads'⟩, hfail⟩

/-- A run leads from the stream of a text into the stream of the text. -/
theorem Runs.leads (h : Runs rules b a s o) (hs : s.InStream src) : State.Leads src s o.state := by
  have hgrown := h.grown_trivial hs.1
  obtain ⟨pos, hstream⟩ := hs.2
  refine ⟨hs, ?_, h.rest_suffix⟩
  cases o with
  | ok s' =>
    obtain ⟨F, hF, hforest⟩ := hgrown
    refine ⟨?_, (hforest.spanned pos hstream).1⟩
    rw [Outcome.state, hF]
    exact Frame.grow_ne_nil hs.1
  | fail e s' =>
    obtain ⟨above, F, r, hF, hforest, habove⟩ := hgrown
    obtain ⟨pos', hstream'⟩ := (hforest.spanned pos hstream).1
    refine ⟨?_, (habove.spanned pos' hstream').1⟩
    rw [Outcome.state, hF]
    exact List.append_ne_nil_of_right_ne_nil _ (Frame.grow_ne_nil hs.1)
  | stuck s' => exact hgrown.elim

/-- A failure leaves open the frames that were open before. -/
theorem Runs.length_frames_fail {e : ParseError} (h : Runs rules b a s (.fail e s'))
    (hs : s.frames ≠ []) :
    s.frames.length ≤ s'.frames.length := by
  obtain ⟨above, F, hF⟩ := h.exists_above hs
  rw [hF, List.length_append, Frame.length_grow]
  omega

/-- Before the end of a list of statements the list goes on, by at least a token. -/
theorem Runs.statements_lt {stops : List TokenKind}
    (h : Runs rules b (.loop (.not (listEnd stops)) (statementRound stops)) s o)
    (hend : (listEnd stops).holds s = false) : o.state.rest.length < s.rest.length := by
  cases h with
  | loop_done holds =>
    rw [Test.holds, hend] at holds
    cases holds
  | loop_round _ _ consumed again => exact Nat.lt_of_le_of_lt again.rest_suffix.length_le consumed
  | loop_fail _ _ round =>
    obtain ⟨s'', hs''⟩ := round.ok_of_unfailing rfl
    cases hs''

/-- An error token is recorded **once**, and has one node. -/
theorem recorded_errorToken {cause : ParseCause} (hcause : cause ≠ .separator) (hs : s.InStream src)
    (h : Runs rules b (errorToken cause) s o) : Recorded s o := by
  have hleads := h.leads hs
  cases h with
  | seq_ok first second =>
    cases first
    cases second with
    | node_ok inside =>
      cases inside
      refine ⟨⟨_, State.reports_errorHere hleads hcause ?_ ?_⟩, by rintro _ _ ⟨⟩⟩
      · simp [Outcome.state, State.openNode, State.report]
      · obtain ⟨F, hF, -⟩ := State.forest_bump (fun _ _ => True) ((s.report cause).openNode .error)
        have hopen : ((s.report cause).openNode .error).bump.frames = ⟨.error, F⟩ :: s.frames := hF
        rw [Outcome.state, State.errorCount_closeNode hopen hs.1,
          State.errorCount_bump (List.cons_ne_nil _ _), if_pos rfl, State.errorCount_openNode]
        rfl
    | node_fail inside => cases inside
  | seq_fail first => cases first

/-- A node that is no `error` node has recorded what its inside has. -/
theorem Recorded.node {kind : NodeKind} (h : Recorded (s.openNode kind) (.ok s₁))
    (hkind : kind ≠ .error) (inside : Runs rules b a (s.openNode kind) (.ok s₁))
    (hs : s.frames ≠ []) : Recorded s (.ok s₁.closeNode) := by
  obtain ⟨⟨new, hnew⟩, -⟩ := h
  obtain ⟨F, hF⟩ := inside.exists_grow (List.cons_ne_nil _ _)
  have hopen : s₁.frames = ⟨kind, F⟩ :: s.frames := hF
  have hcount : s₁.closeNode.errorCount = s₁.errorCount := by
    rw [State.errorCount_closeNode hopen hs, if_neg hkind, Nat.add_zero]
  have hoffset : s₁.closeNode.offset = s₁.offset := by
    rw [State.offset_eq, State.offset_eq, State.rest_closeNode,
      State.lastStart_eq_of_marks (State.marks_closeNode _)]
  exact ⟨⟨new, hnew.congr rfl rfl rfl (State.errorCount_openNode _).symm (State.errors_closeNode _)
    hoffset hcount⟩, by rintro _ _ ⟨⟩⟩

/-- A failure is recorded when it is **recovered from**, behind all that was recorded before
it, and with its node. -/
theorem Recorded.recover {e : ParseError} (h : Recorded s (.fail e s₁)) (recovery : Scan)
    (inside : Runs rules b a s (.fail e s₁)) (hs : s.InStream src) :
    Recorded s (.ok (State.recover recovery s e s₁)) := by
  obtain ⟨⟨new, hnew⟩, hfail⟩ := h
  obtain ⟨cause, hcause, rfl⟩ := hfail _ _ rfl
  have hleads := inside.leads hs
  have hguarded : Runs rules b (.guarded recovery a) s _ := .guarded_fail inside
  have hleads' : State.Leads src s₁ (State.recover recovery s (s₁.errorHere cause) s₁) :=
    ⟨hleads.last, (hguarded.leads hs).last, State.rest_recover _ _ _ _⟩
  have herror := State.reports_errorHere hleads' hcause (State.errors_recover _ _ _ _)
    (State.errorCount_recover recovery _ hs.1 (inside.length_frames_fail hs.1))
  exact ⟨⟨_, hnew.append herror hleads hleads'⟩, by rintro _ _ ⟨⟩⟩

/-- What is done **behind a statement**: a `;` is consumed, or the list ends, or it is recorded
that a `;` is missing. -/
theorem Recorded.behindStatement {stops : List TokenKind} (h : Recorded s (.ok s₁))
    (hleads : State.Leads src s s₁) (consumed : s₁.rest.length < s.rest.length)
    (second : Runs rules b (choose [(.symbol .semi, .bump), (listEnd stops, .skip)]
      (.report .separator)) s₁ o) :
    RoundRecorded src stops s o := by
  have hleads' := second.leads hleads.last
  cases second with
  | branch_yes _ run =>
    cases run
    have hbump := recorded_same (State.errors_bump s₁) (State.errorCount_bump hleads.last.1)
    exact .inl (h.after hbump hleads hleads')
  | branch_no _ run =>
    cases run with
    | branch_yes _ run =>
      cases run
      exact .inl h
    | branch_no hend run =>
      cases run
      exact .inr ⟨s₁, h, hleads, consumed, hend, rfl⟩

/-- What a round has recorded, and then what the rounds after it have. -/
theorem RoundRecorded.after {stops : List TokenKind} (h : RoundRecorded src stops s (.ok s₁))
    (hagain : Recorded s₁ o) (hleads : State.Leads src s s₁)
    (again : Runs rules b (.loop (.not (listEnd stops)) (statementRound stops)) s₁ o) :
    Recorded s o := by
  have hleads₁ := again.leads hleads.last
  rcases h with hround | ⟨s₀, ⟨⟨new, hnew⟩, -⟩, hleads₀, hlt, hend, ⟨⟩⟩
  · exact hround.after hagain hleads hleads₁
  · -- A `;` is missing: the list has not ended, so another round follows.
    obtain ⟨⟨more, hmore⟩, hfail⟩ := hagain
    have hleads' : State.Leads src s₀ o.state := ⟨hleads₀.last, hleads₁.last, hleads₁.rest⟩
    have hgoes : (listEnd stops).holds (s₀.report .separator) = false := by
      rw [Grammar.holds_listEnd] at hend ⊢
      exact hend
    exact ⟨⟨_, hnew.separator hmore hleads₀ hlt hleads' (again.statements_lt hgoes)⟩, hfail⟩

/-- **Runs record errors in order, and each but a missing `;` with its node.** -/
theorem Runs.recorded (hrules : ∀ rule, (rules rule).Orderly) (h : Runs rules b a s o) :
    s.InStream src → (a.Orderly → Recorded s o) ∧ ∀ stops, a = statementRound stops →
      RoundRecorded src stops s o := by
  -- The parts of a list of statements are not orderly, so the motive speaks of its rounds as well.
  induction h with
  | skip => exact fun _ => ⟨fun _ => recorded_same rfl rfl, by rintro _ ⟨⟩⟩
  | enter => exact fun _ => ⟨fun _ => recorded_same rfl rfl, by rintro _ ⟨⟩⟩
  | noteBodiless => exact fun _ => ⟨fun _ => recorded_same rfl rfl, by rintro _ ⟨⟩⟩
  | noteClosed => exact fun _ => ⟨fun _ => recorded_same rfl rfl, by rintro _ ⟨⟩⟩
  | loop_done => exact fun _ => ⟨fun _ => recorded_same rfl rfl, by rintro _ ⟨⟩⟩
  | bump =>
    exact fun hs => ⟨fun _ => recorded_same (State.errors_bump _) (State.errorCount_bump hs.1),
      by rintro _ ⟨⟩⟩
  | take =>
    exact fun hs => ⟨fun _ => recorded_same (State.errors_advance _ _)
      (State.errorCount_advance _ hs.1), by rintro _ ⟨⟩⟩
  | takeClosed_ok =>
    exact fun hs => ⟨fun _ => recorded_same (State.errors_advance _ _)
      (State.errorCount_advance _ hs.1), by rintro _ ⟨⟩⟩
  | takeClosed_fail =>
    exact fun hs => ⟨fun ha => recorded_fail ha (State.errors_advance _ _)
      (State.errorCount_advance _ hs.1), by rintro _ ⟨⟩⟩
  | fail => exact fun _ => ⟨fun ha => recorded_fail ha rfl rfl, by rintro _ ⟨⟩⟩
  | report => exact fun _ => ⟨fun ha => ha.elim, by rintro _ ⟨⟩⟩
  | seq_ok first second ih₁ ih₂ =>
    intro hs
    refine ⟨?_, by rintro _ ⟨⟩⟩
    rintro (⟨ha, hc⟩ | ⟨cause, hcause, rfl, rfl⟩)
    · have hs₁ := (first.leads hs).last
      exact ((ih₁ hs).1 ha).after ((ih₂ hs₁).1 hc) (first.leads hs) (second.leads hs₁)
    · exact recorded_errorToken hcause hs (.seq_ok first second)
  | seq_fail first ih =>
    intro hs
    refine ⟨?_, by rintro _ ⟨⟩⟩
    rintro (⟨ha, -⟩ | ⟨cause, -, rfl, -⟩)
    · exact (ih hs).1 ha
    · cases first
  | branch_yes _ _ ih => exact fun hs => ⟨fun ha => (ih hs).1 ha.1, by rintro _ ⟨⟩⟩
  | branch_no _ _ ih => exact fun hs => ⟨fun ha => (ih hs).1 ha.2, by rintro _ ⟨⟩⟩
  | loop_round _ round consumed again ih₁ ih₂ =>
    intro hs
    refine ⟨fun ha => ?_, by rintro _ ⟨⟩⟩
    have hs₁ := (round.leads hs).last
    have hagain := (ih₂ hs₁).1 ha
    rcases ha with hbody | ⟨stops, rfl, rfl⟩
    · exact ((ih₁ hs).1 hbody).after hagain (round.leads hs) (again.leads hs₁)
    · exact ((ih₁ hs).2 stops rfl).after hagain (round.leads hs) again
  | loop_fail _ _ round ih =>
    intro hs
    refine ⟨?_, by rintro _ ⟨⟩⟩
    rintro (hbody | ⟨stops, rfl, rfl⟩)
    · exact (ih hs).1 hbody
    · obtain ⟨s', hs'⟩ := round.ok_of_unfailing rfl
      cases hs'
  | ifMoved_moved first consumed second ih₁ ih₂ =>
    intro hs
    have hs₁ := (first.leads hs).last
    refine ⟨fun ha => ((ih₁ hs).1 ha.1).after ((ih₂ hs₁).1 ha.2.1) (first.leads hs)
      (second.leads hs₁), ?_⟩
    rintro stops ⟨⟩
    exact ((ih₁ hs).1 trivial).behindStatement (first.leads hs) consumed second
  | ifMoved_still first _ second ih₁ ih₂ =>
    intro hs
    have hs₁ := (first.leads hs).last
    refine ⟨fun ha => ((ih₁ hs).1 ha.1).after ((ih₂ hs₁).1 ha.2.2) (first.leads hs)
      (second.leads hs₁), ?_⟩
    rintro stops ⟨⟩
    exact .inl (((ih₁ hs).1 trivial).after
      ((ih₂ hs₁).1 ⟨trivial, trivial, .inr ⟨_, by decide, rfl, rfl⟩⟩) (first.leads hs)
      (second.leads hs₁))
  | ifMoved_fail first ih =>
    intro hs
    refine ⟨fun ha => (ih hs).1 ha.1, ?_⟩
    rintro stops ⟨⟩
    exact .inl ((ih hs).1 trivial)
  | node_ok inside ih =>
    exact fun hs => ⟨fun ha => ((ih (hs.openNode _)).1 ha.2).node ha.1 inside hs.1, by rintro _ ⟨⟩⟩
  | @node_fail b kind body s s₁ e inside ih =>
    intro hs
    refine ⟨fun ha => ?_, by rintro _ ⟨⟩⟩
    obtain ⟨⟨new, hnew⟩, hfail⟩ := (ih (hs.openNode kind)).1 ha.2
    exact ⟨⟨new, hnew.congr rfl rfl rfl (State.errorCount_openNode _).symm rfl rfl rfl⟩, hfail⟩
  | guarded_ok _ ih => exact fun hs => ⟨(ih hs).1, by rintro _ ⟨⟩⟩
  | guarded_fail inside ih =>
    exact fun hs => ⟨fun ha => ((ih hs).1 ha).recover _ inside hs, by rintro _ ⟨⟩⟩
  | call _ _ ih => exact fun hs => ⟨fun _ => (ih hs).1 (hrules _), by rintro _ ⟨⟩⟩

end Step

namespace Grammar

open Step (all choose when expect expectIdent errorToken Orderly)

/-- An error token is orderly: it is reported right before its node. -/
theorem orderly_errorToken {cause : ParseCause} (hcause : cause ≠ .separator) :
    (errorToken cause).Orderly :=
  .inr ⟨cause, hcause, rfl, rfl⟩

/-- A missing `;` is reported nowhere but between statements. -/
theorem orderly_statements (stops : List TokenKind) : (statements stops).Orderly :=
  .inr ⟨stops, rfl, rfl⟩

theorem orderly_expect (kind : TokenKind) : (expect kind).Orderly :=
  ⟨trivial, by rintro ⟨⟩⟩

/-- Directives report nothing. -/
theorem orderly_routineHeading : routineHeading.Orderly := by
  simp [routineHeading, Orderly, all, when, expectIdent, optionalBracketed, bracketed, formalParams,
    typeUpTo, optionalSemi, directiveClause]

/-- Both rules are orderly. -/
theorem orderly_rules (rule : Rule) : (rules rule).Orderly := by
  cases rule with
  | statement =>
    simp [rules, statement, Orderly, choose, all, when, orderly_expect, compound, conditional,
      headed, caseStatement, caseArm, repetition, tryStatement, handler, assembler, expression,
      optionalSemi, orderly_statements]
  | routine =>
    simp [rules, routine, Orderly, choose, all, when, orderly_expect, compound, assembler,
      optionalSemi, orderly_statements, orderly_routineHeading, routineBody, localDecls]

/-- So are the members of a class. -/
theorem orderly_members : members.Orderly := by
  have herror : (errorToken .classBody).Orderly := orderly_errorToken (by decide)
  simp [members, member, Orderly, choose, all, when, orderly_expect, expectIdent, optionalBracketed,
    bracketed, fieldDecl, propertyDecl, typeUpTo, optionalSemi, variantPart,
    orderly_routineHeading, herror]

/-- So are type declarations. -/
theorem orderly_typeSection : typeSection.Orderly := by
  simp [typeSection, typeDecl, classType, classRest, Orderly, choose, all, when, orderly_expect,
    expectIdent, optionalBracketed, bracketed, orderly_members]

/-- **So is the whole grammar.** -/
theorem orderly_unit : unit.Orderly := by
  have herror : (errorToken .unitLevel).Orderly := orderly_errorToken (by decide)
  simp [unit, unitItem, Orderly, choose, all, when, orderly_expect, expectIdent, declaration,
    unitHeader, usesClause, usedUnit, dottedName, optionalBracketed, bracketed, localDecls,
    unitSection, compound, orderly_typeSection, orderly_statements, herror]

end Grammar

/-! ## The errors of a text -/

namespace SyntaxTree

/-- The `error` nodes of a tree, at any depth. -/
def errorNodes (tree : SyntaxTree) : List Tree :=
  tree.root.descendants.filter Tree.isError

/-- The places at which the tree says that a `;` is missing between two statements. -/
def missingSemis (tree : SyntaxTree) : List Nat :=
  (tree.errors.filter ParseError.missesSemi).map ParseError.start

end SyntaxTree

/-- What the parser has recorded when it ends: everything, from nothing. -/
theorem Token.exists_reports {src : Text} {tokens : List Token} (h : lex src = .ok tokens) :
    ∃ new, (State.initial tokens).Reports (parseState tokens) new := by
  have hs : (State.initial tokens).InStream src := ⟨List.cons_ne_nil _ _, 0, stream_lex h⟩
  exact (((Grammar.runs_unit tokens).recorded Grammar.orderly_rules hs).1 Grammar.orderly_unit).1

/-- The `error` nodes of the tree are those that the parser has built. -/
theorem Token.length_errorNodes (tokens : List Token) :
    (parse tokens).errorNodes.length = (parseState tokens).errorCount := by
  obtain ⟨F, hF, -⟩ := @exists_forest (fun _ _ => True) (fun _ => trivial)
    (fun _ => Step.forms_trivial _ _)
    (Step.forms_trivial _ _) tokens
  have hroot : (parse tokens).root = Tree.ofChildren .unit F (parseState tokens).offset :=
    root_eq hF
  rw [SyntaxTree.errorNodes, hroot, ← List.countP_eq_length_filter, Tree.descendants_ofChildren,
    State.errorCount, hF, Frame.errorCount_cons, Frame.errorCount_nil]
  rfl

namespace SyntaxTree

/-- **Nothing is passed over in silence.** In the tree of every text that can be read as tokens
there are as many errors as there are `error` nodes and places at which a `;` is missing; no such
place is told twice. Every error is at a token of the text, and they come in the order of the
source. So a tree without errors has no `error` node. -/
theorem errors_accounted {src : Text} {tokens : List Token} (h : Token.lex src = .ok tokens) :
    ∃ tree, ofText src = .ok tree
      ∧ tree.errors.length = tree.errorNodes.length + tree.missingSemis.length
      ∧ tree.missingSemis.Pairwise (· < ·)
      ∧ (∀ e ∈ tree.errors, ∃ t ∈ tokens, e.IsAt t)
      ∧ tree.errors.Pairwise (fun e f => e.start ≤ f.start)
      ∧ (tree.errors = [] → tree.errorNodes = []) := by
  obtain ⟨new, hnew⟩ := Token.exists_reports h
  have herrors : (Token.parse tokens).errors = new := hnew.errors_eq
  have hnone : (State.initial tokens).errorCount = 0 := by
    rw [State.errorCount, State.initial, Frame.errorCount_cons, Tree.errorCount_nil,
      Frame.errorCount_nil]
  have hnodes : (Token.parse tokens).errorNodes.length = new.countP (!·.missesSemi) := by
    rw [Token.length_errorNodes, hnew.count, hnone, Nat.zero_add]
  refine ⟨Token.parse tokens, ofText_eq h, ?_, ?_, ?_, ?_, ?_⟩
  · rw [missingSemis, List.length_map, ← List.countP_eq_length_filter, herrors,
      hnodes, Nat.add_comm]
    simpa using List.length_eq_countP_add_countP (l := new) ParseError.missesSemi
  · rw [missingSemis, herrors, List.pairwise_map]
    exact hnew.apart
  · rw [herrors]
    exact hnew.isAt
  · rw [herrors]
    exact hnew.ordered
  · intro hempty
    rw [← herrors, hempty] at hnodes
    exact List.eq_nil_of_length_eq_zero hnodes

/-- A text in which everything is left open: two `try` without handlers inside a
block without `end`. -/
def unclosedBlocks : Text :=
  "begin try begin end try else end end".toList

/-- It has six `error` nodes, three of them around others, and a missing `;` at the second `try`. -/
theorem errors_accounted_unclosed :
    ∃ tokens tree, Token.lex unclosedBlocks = .ok tokens ∧ ofText unclosedBlocks = .ok tree
      ∧ tree.errors.length = 7 ∧ tree.errorNodes.length = 6 ∧ tree.missingSemis = [20]
      ∧ tree.errors.length = tree.errorNodes.length + tree.missingSemis.length
      ∧ tree.missingSemis.Pairwise (· < ·)
      ∧ (∀ e ∈ tree.errors, ∃ t ∈ tokens, e.IsAt t)
      ∧ tree.errors.Pairwise (fun e f => e.start ≤ f.start)
      ∧ (tree.errors = [] → tree.errorNodes = []) := by
  have hlex : Token.lex unclosedBlocks = .ok
      [⟨.keyword .kwBegin, 0, 5⟩, ⟨.keyword .kwTry, 6, 9⟩, ⟨.keyword .kwBegin, 10, 15⟩,
        ⟨.keyword .kwEnd, 16, 19⟩, ⟨.keyword .kwTry, 20, 23⟩, ⟨.keyword .kwElse, 24, 28⟩,
        ⟨.keyword .kwEnd, 29, 32⟩, ⟨.keyword .kwEnd, 33, 36⟩, ⟨.eof, 36, 36⟩] := by
    with_unfolding_all rfl
  obtain ⟨tree, htree, haccounted⟩ := errors_accounted hlex
  have hcounts : (ofText unclosedBlocks).toOption.map
      (fun tree => (tree.errors.length, tree.missingSemis)) = some (7, [20]) := by decide +kernel
  rw [htree] at hcounts
  obtain ⟨herrors, hsemis⟩ := Prod.mk.inj (Option.some.inj hcounts)
  have hnodes : tree.errorNodes.length = 6 := by
    have hlength := haccounted.1
    rw [herrors, hsemis] at hlength
    exact (Nat.succ.inj hlength).symm
  exact ⟨_, tree, hlex, htree, herrors, hnodes, hsemis, haccounted⟩

end SyntaxTree

end PascalAtlas
