import PascalAtlas.Parser

/-!
# Productive runs

`Step.run` counts rounds and calls, and gives up when a count is used up. Here the language of steps
gets a meaning in which nothing is counted: `Step.Runs` says how a step ends, and has a rule for
every way in which it can end. Two of its rules carry a condition of their own. A **round** of a
loop that succeeds must have consumed a token, and a **call** must be made with fewer tokens left
than there were when the rule around it was called.

The first result is that the counting interpreter computes this relation (`Runs.run_eq`): where a
step has a productive run, any sufficiently large bound on the calls gives its outcome, and the
bound on the rounds is never met. The second is that no run moves back (`Runs.rest_suffix`).
-/

namespace PascalAtlas

/-! ## The tokens that are left

What each move of the state does to the tokens still to come. Only `bump` and
`advance` touch them. -/

namespace State

variable (s : State)

@[simp] theorem rest_push (trees : List Tree) : (s.push trees).rest = s.rest := by
  unfold push
  split <;> rfl

@[simp] theorem rest_advance (n : Nat) : (s.advance n).rest = s.rest.drop n := by
  simp [advance]

/-- Nothing is put back when tokens are consumed. -/
theorem rest_advance_suffix (n : Nat) : (s.advance n).rest <:+ s.rest := by
  rw [rest_advance]
  exact List.drop_suffix _ _

/-- Where there are tokens, consuming some leaves fewer. -/
theorem rest_advance_lt {s : State} {n : Nat} (hn : 0 < n) (hs : s.rest ≠ []) :
    (s.advance n).rest.length < s.rest.length := by
  have hlen := List.length_pos_iff.2 hs
  rw [rest_advance, List.length_drop]
  omega

@[simp] theorem rest_openNode (kind : NodeKind) : (s.openNode kind).rest = s.rest := rfl

@[simp] theorem rest_closeNode : s.closeNode.rest = s.rest := by
  unfold closeNode
  split <;> rfl

@[simp] theorem rest_collapse (depth : Nat) : (s.collapse depth).rest = s.rest := rfl

/-- Where the next token is not the end, `bump` consumes it. -/
theorem rest_bump {s : State} (h : s.kind ≠ .eof) : s.bump.rest = s.rest.tail := by
  unfold bump
  split
  next hs => simp [hs]
  next t ts hs =>
    have ht : t.kind ≠ .eof := by simpa [kind, headKind, hs] using h
    rw [if_neg ht, rest_push, hs, List.tail_cons]

/-- A token that is not the end of the file is one of the remaining ones. -/
theorem ne_nil_of_kind {s : State} (h : s.kind ≠ .eof) : s.rest ≠ [] := by
  intro hs
  exact h (by rw [kind, hs, headKind])

/-- Behind a token there are fewer tokens left. -/
theorem rest_bump_lt {s : State} (h : s.kind ≠ .eof) : s.bump.rest.length < s.rest.length := by
  rw [rest_bump h, List.length_tail]
  have := List.length_pos_iff.2 (ne_nil_of_kind h)
  omega

/-- At the end of the tokens there is nothing to `bump`. -/
theorem bump_eof {s : State} (h : s.kind = .eof) : s.bump = s := by
  unfold bump
  split
  next => rfl
  next t ts hs => rw [if_pos (by simpa [kind, headKind, hs] using h)]

/-- One token behind, what is left was left before. -/
theorem rest_bump_suffix : s.bump.rest <:+ s.rest := by
  by_cases h : s.kind = .eof
  · have hrest : s.bump.rest = s.rest := congrArg rest (bump_eof h)
    exact hrest ▸ List.suffix_refl _
  · rw [rest_bump h]
    exact List.tail_suffix _

/-- Recovery moves on, never back. -/
theorem rest_recover (recovery : Scan) (entry : State) (error : ParseError) :
    (recover recovery entry error s).rest <:+ s.rest := by
  simp only [recover, rest_closeNode]
  split
  · exact (rest_bump_suffix _).trans (rest_advance_suffix _ _)
  · exact rest_advance_suffix _ _

/-- **A recovery consumes a token**, counted from the state in which the guarded step began: if
neither the step nor the scan has, the next token is still the one of that state, and is bumped. -/
theorem rest_recover_lt {recovery : Scan} {entry s : State} {error : ParseError}
    (hsuffix : s.rest <:+ entry.rest) (hentry : entry.kind ≠ .eof) :
    (recover recovery entry error s).rest.length < entry.rest.length := by
  simp only [recover, rest_closeNode]
  split
  next heq =>
    simp only [rest_advance, rest_collapse, List.length_drop] at heq
    have hle := hsuffix.length_le
    have hrest : s.rest = entry.rest := hsuffix.eq_of_length (by omega)
    -- Neither the step nor the scan has consumed, so the token that is bumped is
    -- the one of `entry`.
    refine Nat.lt_of_lt_of_le (rest_bump_lt ?_) ?_
    · have hpos := List.length_pos_iff.2 (ne_nil_of_kind hentry)
      have hzero : (recovery.run {} s.rest).1 = 0 := by
        rw [hrest] at heq ⊢
        omega
      rw [kind, rest_advance, rest_collapse, hzero, List.drop_zero]
      exact hrest ▸ hentry
    · simp only [rest_advance, rest_collapse, List.length_drop]
      omega
  next hne =>
    simp only [rest_advance, rest_collapse, List.length_drop] at hne ⊢
    have hle := hsuffix.length_le
    omega

/-! ## What the state remembers

Tokens, frames and errors apart, the moves leave the state as it is. -/

/-- The part, the two notes and the last offset of a state. -/
def marks (s : State) : UnitPart × Bool × Bool × Nat :=
  (s.part, s.bodiless, s.closed, s.lastStart)

theorem closed_eq_of_marks {s s' : State} (h : s'.marks = s.marks) : s'.closed = s.closed :=
  congrArg (fun marks => marks.2.2.1) h

theorem lastStart_eq_of_marks {s s' : State} (h : s'.marks = s.marks) :
    s'.lastStart = s.lastStart :=
  congrArg (fun marks => marks.2.2.2) h

/-- Only the steps that set the marks change them: adding trees does not. -/
@[simp] theorem marks_push (trees : List Tree) : (s.push trees).marks = s.marks := by
  unfold push
  split <;> rfl

@[simp] theorem marks_bump : s.bump.marks = s.marks := by
  unfold bump
  split
  next => rfl
  next t ts _ =>
    by_cases ht : t.kind = .eof
    · rw [if_pos ht]
    · rw [if_neg ht, marks_push]
      rfl

@[simp] theorem marks_advance (n : Nat) : (s.advance n).marks = s.marks := by
  rw [advance, marks_push]
  rfl

@[simp] theorem marks_closeNode : s.closeNode.marks = s.marks := by
  unfold closeNode
  split <;> rfl

/-- Recovery leaves the marks as they are. -/
@[simp] theorem marks_recover (recovery : Scan) (entry : State) (error : ParseError) :
    (recover recovery entry error s).marks = s.marks := by
  simp only [recover, marks_closeNode]
  split
  · rw [marks_bump, marks_advance]
    rfl
  · rw [marks_advance]
    rfl

end State

namespace Step

/-- **Productive runs.** `Runs grammar b a s o` says that from state `s` the step `a` ends
as `o`, where `b` is the number of tokens that were left when the rule to which the step
belongs was called. -/
inductive Runs (grammar : Rule → Step) : Nat → Step → State → Outcome → Prop
  | skip {b : Nat} {s : State} : Runs grammar b .skip s (.ok s)
  | bump {b : Nat} {s : State} : Runs grammar b .bump s (.ok s.bump)
  | take {b : Nat} {scan : Scan} {s : State} :
    Runs grammar b (.take scan) s (.ok (s.advance (scan.run {} s.rest).1))
  | takeClosed_ok {b : Nat} {scan : Scan} {cause : ParseCause} {s : State}
      (stopped : (scan.run {} s.rest).2 = true) :
    Runs grammar b (.takeClosed scan cause) s (.ok (s.advance (scan.run {} s.rest).1))
  | takeClosed_fail {b : Nat} {scan : Scan} {cause : ParseCause} {s : State}
      (ran : (scan.run {} s.rest).2 = false) :
    Runs grammar b (.takeClosed scan cause) s
      (.fail ((s.advance (scan.run {} s.rest).1).errorHere cause)
        (s.advance (scan.run {} s.rest).1))
  | fail {b : Nat} {cause : ParseCause} {s : State} :
    Runs grammar b (.fail cause) s (.fail (s.errorHere cause) s)
  | report {b : Nat} {cause : ParseCause} {s : State} :
    Runs grammar b (.report cause) s (.ok (s.report cause))
  | enter {b : Nat} {part : UnitPart} {s : State} :
    Runs grammar b (.enter part) s (.ok { s with part := part })
  | noteBodiless {b : Nat} {value : Bool} {s : State} :
    Runs grammar b (.noteBodiless value) s (.ok { s with bodiless := value })
  | noteClosed {b : Nat} {s : State} : Runs grammar b .noteClosed s (.ok { s with closed := true })
  | seq_ok {b : Nat} {a c : Step} {s s₁ : State} {o : Outcome}
      (first : Runs grammar b a s (.ok s₁)) (second : Runs grammar b c s₁ o) :
    Runs grammar b (.seq a c) s o
  | seq_fail {b : Nat} {a c : Step} {s s₁ : State} {e : ParseError}
      (first : Runs grammar b a s (.fail e s₁)) : Runs grammar b (.seq a c) s (.fail e s₁)
  | branch_yes {b : Nat} {test : Test} {yes no : Step} {s : State} {o : Outcome}
      (holds : test.holds s = true) (run : Runs grammar b yes s o) :
    Runs grammar b (.branch test yes no) s o
  | branch_no {b : Nat} {test : Test} {yes no : Step} {s : State} {o : Outcome}
      (holds : test.holds s = false) (run : Runs grammar b no s o) :
    Runs grammar b (.branch test yes no) s o
  | loop_done {b : Nat} {test : Test} {body : Step} {s : State} (holds : test.holds s = false) :
    Runs grammar b (.loop test body) s (.ok s)
  /-- A round consumes a token … -/
  | loop_round {b : Nat} {test : Test} {body : Step} {s s₁ : State} {o : Outcome}
      (holds : test.holds s = true) (round : Runs grammar b body s (.ok s₁))
      (consumed : s₁.rest.length < s.rest.length) (again : Runs grammar b (.loop test body) s₁ o) :
    Runs grammar b (.loop test body) s o
  /-- … or leaves the loop, and begins only where a token is left. -/
  | loop_fail {b : Nat} {test : Test} {body : Step} {s s₁ : State} {e : ParseError}
      (holds : test.holds s = true) (left : s.rest ≠ [])
      (round : Runs grammar b body s (.fail e s₁)) :
    Runs grammar b (.loop test body) s (.fail e s₁)
  | ifMoved_moved {b : Nat} {body moved still : Step} {s s₁ : State} {o : Outcome}
      (first : Runs grammar b body s (.ok s₁)) (consumed : s₁.rest.length < s.rest.length)
      (second : Runs grammar b moved s₁ o) :
    Runs grammar b (.ifMoved body moved still) s o
  | ifMoved_still {b : Nat} {body moved still : Step} {s s₁ : State} {o : Outcome}
      (first : Runs grammar b body s (.ok s₁)) (consumed : ¬ s₁.rest.length < s.rest.length)
      (second : Runs grammar b still s₁ o) :
    Runs grammar b (.ifMoved body moved still) s o
  | ifMoved_fail {b : Nat} {body moved still : Step} {s s₁ : State} {e : ParseError}
      (first : Runs grammar b body s (.fail e s₁)) :
    Runs grammar b (.ifMoved body moved still) s (.fail e s₁)
  | node_ok {b : Nat} {kind : NodeKind} {body : Step} {s s₁ : State}
      (inside : Runs grammar b body (s.openNode kind) (.ok s₁)) :
    Runs grammar b (.node kind body) s (.ok s₁.closeNode)
  | node_fail {b : Nat} {kind : NodeKind} {body : Step} {s s₁ : State} {e : ParseError}
      (inside : Runs grammar b body (s.openNode kind) (.fail e s₁)) :
    Runs grammar b (.node kind body) s (.fail e s₁)
  | guarded_ok {b : Nat} {recovery : Scan} {body : Step} {s s₁ : State}
      (inside : Runs grammar b body s (.ok s₁)) :
    Runs grammar b (.guarded recovery body) s (.ok s₁)
  | guarded_fail {b : Nat} {recovery : Scan} {body : Step} {s s₁ : State} {e : ParseError}
      (inside : Runs grammar b body s (.fail e s₁)) :
    Runs grammar b (.guarded recovery body) s (.ok (State.recover recovery s e s₁))
  /-- A call is made with fewer tokens left than when the rule around it was called. -/
  | call {b : Nat} {rule : Rule} {s : State} {o : Outcome} (fewer : s.rest.length < b)
      (body : Runs grammar s.rest.length (grammar rule) s o) :
    Runs grammar b (.call rule) s o

/-! ## The interpreter computes the runs -/

variable {grammar : Rule → Step} {a : Step} {s : State} {o : Outcome} {b : Nat}

/-- The bound on the rounds of a loop is never met where every round consumes a token: what is left
of the bound stays at least as large as the number of tokens that are left. -/
theorem runLoop_round {test : Test} {run : State → Outcome} {s₁ : State} {m : Nat}
    (holds : test.holds s = true) (hrun : run s = .ok s₁) (hlt : s₁.rest.length < s.rest.length)
    (hm : s.rest.length ≤ m) :
    ∃ k, s₁.rest.length ≤ k ∧ runLoop test run m s = runLoop test run k s₁ := by
  obtain ⟨k, rfl⟩ : ∃ k, m = k + 1 := ⟨m - 1, by omega⟩
  exact ⟨k, by omega, by rw [runLoop, if_pos holds, hrun, Outcome.andThen]⟩

/-- **The interpreter computes the productive runs.** The bound `b` of a run is enough calls, and
every larger bound gives the same outcome. -/
theorem Runs.run_eq (h : Runs grammar b a s o) :
    ∀ n, b ≤ n → a.run (Rule.run grammar n) s = o := by
  -- A loop is run with its own count of rounds, so its motive speaks of every sufficient count.
  have key : ∀ n, b ≤ n → a.run (Rule.run grammar n) s = o ∧ ∀ test body, a = .loop test body →
      ∀ m, s.rest.length ≤ m → runLoop test (body.run (Rule.run grammar n)) m s = o := by
    induction h with
    | @loop_done b test body s holds =>
      intro n _
      have hloop : ∀ m, runLoop test (body.run (Rule.run grammar n)) m s = .ok s := by
        intro m
        cases m <;> rw [runLoop, holds] <;> rfl
      refine ⟨hloop _, ?_⟩
      rintro _ _ ⟨rfl, rfl⟩ m -
      exact hloop m
    | @loop_round b test body s s₁ o holds _ consumed _ ihRound ihAgain =>
      intro n hn
      have hloop : ∀ m, s.rest.length ≤ m →
          runLoop test (body.run (Rule.run grammar n)) m s = o := by
        intro m hm
        obtain ⟨k, hk, heq⟩ := runLoop_round holds (ihRound n hn).1 consumed hm
        rw [heq]
        exact (ihAgain n hn).2 test body rfl k hk
      refine ⟨hloop _ (Nat.le_refl _), ?_⟩
      rintro _ _ ⟨rfl, rfl⟩ m hm
      exact hloop m hm
    | @loop_fail b test body s s₁ e holds left _ ihRound =>
      intro n hn
      have hloop : ∀ m, s.rest.length ≤ m →
          runLoop test (body.run (Rule.run grammar n)) m s = .fail e s₁ := by
        intro m hm
        have hpos := List.length_pos_iff.2 left
        obtain ⟨k, rfl⟩ : ∃ k, m = k + 1 := ⟨m - 1, by omega⟩
        rw [runLoop, if_pos holds, (ihRound n hn).1, Outcome.andThen]
      refine ⟨hloop _ (Nat.le_refl _), ?_⟩
      rintro _ _ ⟨rfl, rfl⟩ m hm
      exact hloop m hm
    | call fewer _ ih =>
      intro n hn
      refine ⟨?_, nofun⟩
      obtain ⟨m, rfl⟩ : ∃ m, n = m + 1 := ⟨n - 1, by omega⟩
      exact (ih m (by omega)).1
    | takeClosed_ok stopped => exact fun n _ => ⟨by simp [run, stopped], nofun⟩
    | takeClosed_fail ran => exact fun n _ => ⟨by simp [run, ran], nofun⟩
    | seq_ok _ _ ih₁ ih₂ =>
      exact fun n hn => ⟨by rw [run, (ih₁ n hn).1]; exact (ih₂ n hn).1, nofun⟩
    | seq_fail _ ih => exact fun n hn => ⟨by rw [run, (ih n hn).1]; rfl, nofun⟩
    | branch_yes holds _ ih =>
      exact fun n hn => ⟨by rw [run, if_pos holds]; exact (ih n hn).1, nofun⟩
    | branch_no holds _ ih =>
      exact fun n hn => ⟨by rw [run, if_neg (by simp [holds])]; exact (ih n hn).1, nofun⟩
    | ifMoved_moved _ consumed _ ih₁ ih₂ =>
      refine fun n hn => ⟨?_, nofun⟩
      rw [run, (ih₁ n hn).1, Outcome.andThen, if_pos consumed]
      exact (ih₂ n hn).1
    | ifMoved_still _ consumed _ ih₁ ih₂ =>
      refine fun n hn => ⟨?_, nofun⟩
      rw [run, (ih₁ n hn).1, Outcome.andThen, if_neg consumed]
      exact (ih₂ n hn).1
    | ifMoved_fail _ ih => exact fun n hn => ⟨by rw [run, (ih n hn).1]; rfl, nofun⟩
    | node_ok _ ih => exact fun n hn => ⟨by rw [run, (ih n hn).1]; rfl, nofun⟩
    | node_fail _ ih => exact fun n hn => ⟨by rw [run, (ih n hn).1]; rfl, nofun⟩
    | guarded_ok _ ih => exact fun n hn => ⟨by rw [run, (ih n hn).1]; rfl, nofun⟩
    | guarded_fail _ ih => exact fun n hn => ⟨by rw [run, (ih n hn).1]; rfl, nofun⟩
    | _ => exact fun n _ => ⟨rfl, nofun⟩
  exact fun n hn => (key n hn).1

/-! ## Taking runs apart -/

/-- A choice runs the step of a case whose test holds, or else the last step. -/
theorem Runs.of_choose {C : Prop} {cases : List (Test × Step)} {otherwise : Step}
    (h : Runs grammar b (choose cases otherwise) s o)
    (hcases : ∀ c ∈ cases, c.1.holds s = true → Runs grammar b c.2 s o → C)
    (hother : Runs grammar b otherwise s o → C) : C := by
  induction cases with
  | nil => exact hother h
  | cons c cs ih =>
    cases h with
    | branch_yes holds run => exact hcases c (List.mem_cons_self ..) holds run
    | branch_no _ run => exact ih run fun d hd => hcases d (List.mem_cons_of_mem _ hd)

/-- **Loop invariants.** What every round preserves holds when the loop is left, and the test of the
loop does not. -/
theorem Runs.loop_invariant {I : State → Prop} {test : Test} {body : Step} {s' : State}
    (h : Runs grammar b (.loop test body) s (.ok s')) (hs : I s)
    (hround : ∀ s s₁, I s → test.holds s = true → Runs grammar b body s (.ok s₁) → I s₁) :
    I s' ∧ test.holds s' = false := by
  -- The induction is on the run, and only the rules for loops apply.
  generalize ha : Step.loop test body = a at h
  generalize ho : Outcome.ok s' = o at h
  induction h with
  | loop_done holds =>
    obtain ⟨rfl, rfl⟩ := Step.loop.inj ha
    obtain rfl := Outcome.ok.inj ho
    exact ⟨hs, holds⟩
  | loop_round holds round _ _ _ ih =>
    obtain ⟨rfl, rfl⟩ := Step.loop.inj ha
    exact ih (hround _ _ hs holds round) hround rfl ho
  | loop_fail => cases ho
  | _ => cases ha

/-! ## No run moves back -/

/-- What is left after a run is a **suffix** of what was left before it. -/
theorem Runs.rest_suffix (h : Runs grammar b a s o) : o.state.rest <:+ s.rest := by
  induction h with
  | bump => exact State.rest_bump_suffix _
  | take => exact State.rest_advance_suffix _ _
  | takeClosed_ok => exact State.rest_advance_suffix _ _
  | takeClosed_fail => exact State.rest_advance_suffix _ _
  | seq_ok _ _ ih₁ ih₂ => exact ih₂.trans ih₁
  | seq_fail _ ih => exact ih
  | branch_yes _ _ ih => exact ih
  | branch_no _ _ ih => exact ih
  | loop_round _ _ _ _ ih₁ ih₂ => exact ih₂.trans ih₁
  | loop_fail _ _ _ ih => exact ih
  | ifMoved_moved _ _ _ ih₁ ih₂ => exact ih₂.trans ih₁
  | ifMoved_still _ _ _ ih₁ ih₂ => exact ih₂.trans ih₁
  | ifMoved_fail _ ih => exact ih
  | node_ok _ ih => simpa [Outcome.state] using ih
  | node_fail _ ih => simpa [Outcome.state] using ih
  | guarded_ok _ ih => exact ih
  | guarded_fail _ ih => exact (State.rest_recover _ _ _ _).trans ih
  | call _ _ ih => exact ih
  | _ => exact List.suffix_refl _

/-- No run has more tokens left than it began with. -/
theorem Runs.rest_le {s' : State} (h : Runs grammar b a s (.ok s')) :
    s'.rest.length ≤ s.rest.length :=
  h.rest_suffix.length_le

end Step

end PascalAtlas
