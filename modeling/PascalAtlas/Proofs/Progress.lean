import PascalAtlas.Proofs.Runs

/-!
# Progress

Why the parser ends on every list of tokens. Nothing in the grammar says how far a step gets: an
expression may be empty, a statement may be empty, a recovery may stop at once, and at the end of
the tokens `bump` consumes nothing. What saves it is that wherever it goes round or calls itself, a
token is known to have been consumed, and this is argued in two layers.

The first layer is about steps as such. A step **consumes** (`Step.Consumes`) when success leaves
fewer tokens, and it is **steady** (`Step.Steady`) when each of its loops goes round only before a
token and has a body that consumes. A steady step has a productive run from every state in which it
may call rules (`Step.exists_runs`).

The second layer checks the grammar: one lemma for each loop, and one for each
rule that a call enters.
-/

namespace PascalAtlas

/-! ## Kinds and tests -/

namespace TokenKind

/-- Whether a kind **carries no text**, so that no other kind has its shape. -/
def textless : TokenKind → Bool
  | .keyword _ | .symbol _ | .eof => true
  | _ => false

/-- Of a kind without text there is only one of its shape. -/
theorem eq_of_sameShape {k k' : TokenKind} (h : k.sameShape k' = true) (hk' : k'.textless = true) :
    k = k' := by
  cases k' <;> cases k <;> simp_all [sameShape, textless]

end TokenKind

namespace Test

/-- The answer of a test **before a token of a kind**, where that kind decides it. -/
def answer? (k : TokenKind) : Test → Option Bool
  | .here kind => some (k.sameShape kind)
  | .word spelling => some (k.isWord spelling)
  | .never => some false
  | .or a b =>
    match a.answer? k, b.answer? k with
    | some true, _ | _, some true => some true
    | some false, some false => some false
    | _, _ => none
  | .and a b =>
    match a.answer? k, b.answer? k with
    | some false, _ | _, some false => some false
    | some true, some true => some true
    | _, _ => none
  | .not a => (a.answer? k).map (!·)
  | _ => none

/-- What a test answers for a kind is what it says before a token of that kind. -/
theorem holds_of_answer {s : State} {k : TokenKind} (hs : s.kind = k) (test : Test) :
    ∀ answer, test.answer? k = some answer → test.holds s = answer := by
  induction test with
  | here kind => simp [answer?, holds, hs]
  | word spelling => simp [answer?, holds, hs]
  | never => simp [answer?, holds]
  | or a b iha ihb =>
    intro answer h
    rw [holds]
    simp only [answer?] at h
    split at h <;> simp_all
  | and a b iha ihb =>
    intro answer h
    rw [holds]
    simp only [answer?] at h
    split at h <;> simp_all
  | not a iha =>
    intro answer h
    obtain ⟨v, hv, rfl⟩ := Option.map_eq_some_iff.1 h
    rw [holds, iha v hv]
  | _ => simp [answer?]

/-- One of some tests holds if a test among them does. -/
@[simp] theorem holds_any (tests : List Test) (s : State) :
    (any tests).holds s = tests.any fun test => test.holds s := by
  induction tests with
  | nil => rfl
  | cons test tests ih => rw [any, holds, ih, List.any_cons]

/-- A test that fails at the end of the tokens holds only before a token. -/
theorem kind_ne_eof {test : Test} {s : State} (hend : test.answer? .eof = some false)
    (h : test.holds s = true) : s.kind ≠ .eof := by
  intro hs
  rw [holds_of_answer hs test false hend] at h
  exact Bool.false_ne_true h

/-- Where the next token is found to be of a kind without text, there is one, and of this kind. -/
theorem rest_of_here {kind : TokenKind} {s : State} (h : (here kind).holds s = true)
    (htext : kind.textless = true) (hkind : kind ≠ .eof) :
    ∃ t ts, s.rest = t :: ts ∧ t.kind = kind := by
  have hhead : headKind s.rest = kind := TokenKind.eq_of_sameShape h htext
  cases hs : s.rest with
  | nil => exact absurd (by rw [← hhead, hs, headKind]) hkind
  | cons t ts => exact ⟨t, ts, rfl, by rwa [hs, headKind] at hhead⟩

end Test

namespace Step

/-! ## Steps that consume -/

section Consumes

variable (grammar : Rule → Step)

/-- A step **consumes** where `P` holds: if it succeeds from there, fewer tokens are left. -/
def Consumes (P : State → Prop) (a : Step) : Prop :=
  ∀ b s s', P s → Runs grammar b a s (.ok s') → s'.rest.length < s.rest.length

variable {grammar} {P Q : State → Prop} {a c : Step}

/-- A step that consumes from more states consumes from fewer. -/
theorem Consumes.mono (h : Consumes grammar Q a) (hPQ : ∀ s, P s → Q s) : Consumes grammar P a :=
  fun b s s' hs hrun => h b s s' (hPQ s hs) hrun

/-- A failure never succeeds, so it need not consume. -/
theorem consumes_fail (cause : ParseCause) : Consumes grammar P (.fail cause) := by
  intro b s s' _ hrun
  cases hrun

/-- A single move consumes, if a token is left. -/
theorem consumes_bump (h : ∀ s, P s → s.kind ≠ .eof) : Consumes grammar P .bump := by
  intro b s s' hs hrun
  cases hrun
  exact State.rest_bump_lt (h s hs)

/-- Two steps consume if the first does. -/
theorem Consumes.seq_left (h : Consumes grammar P a) : Consumes grammar P (.seq a c) := by
  intro b s s' hs hrun
  cases hrun with
  | seq_ok first second => exact Nat.lt_of_le_of_lt second.rest_le (h b s _ hs first)

/-- Or if the second does, from where the first leads. -/
theorem Consumes.seq_right (h : Consumes grammar Q c)
    (hQ : ∀ b s s', P s → Runs grammar b a s (.ok s') → Q s') : Consumes grammar P (.seq a c) := by
  intro b s s' hs hrun
  cases hrun with
  | seq_ok first second =>
    exact Nat.lt_of_lt_of_le (h b _ s' (hQ b s _ hs first) second) first.rest_le

/-- A step that consumes from every state does so behind any other step. -/
theorem Consumes.seq_after (h : Consumes grammar (fun _ => True) c) :
    Consumes grammar P (.seq a c) :=
  h.seq_right fun _ _ _ _ _ => trivial

/-- A branch consumes if both ways do. -/
theorem Consumes.branch {test : Test}
    (hyes : Consumes grammar (fun s => P s ∧ test.holds s = true) a)
    (hno : Consumes grammar (fun s => P s ∧ test.holds s = false) c) :
    Consumes grammar P (.branch test a c) := by
  intro b s s' hs hrun
  cases hrun with
  | branch_yes holds run => exact hyes b s s' ⟨hs, holds⟩ run
  | branch_no holds run => exact hno b s s' ⟨hs, holds⟩ run

/-- A node consumes what is inside it. -/
theorem Consumes.node {kind : NodeKind}
    (h : Consumes grammar (fun s => ∃ s₀, P s₀ ∧ s = s₀.openNode kind) a) :
    Consumes grammar P (.node kind a) := by
  intro b s s' hs hrun
  cases hrun with
  | node_ok inside => simpa using h b _ _ ⟨s, hs, rfl⟩ inside

/-- Behind a step that may have left the tokens alone, only the second step counts: that the first
one did so says that the token before which it began is still the next one. -/
theorem Consumes.ifMoved {body : Step}
    (h : Consumes grammar (fun s' => ∃ s, P s ∧ s'.rest = s.rest) c) :
    Consumes grammar P (.ifMoved body a c) := by
  intro b s s' hs hrun
  cases hrun with
  | ifMoved_moved first consumed second => exact Nat.lt_of_le_of_lt second.rest_le consumed
  | @ifMoved_still _ _ _ _ _ s₁ _ first consumed second =>
    have hrest : s₁.rest = s.rest := first.rest_suffix.eq_of_length (by
      have hle := first.rest_le
      have hlt : ¬ s₁.rest.length < s.rest.length := consumed
      show s₁.rest.length = s.rest.length
      omega)
    rw [← hrest]
    exact h b s₁ s' ⟨s, hs, hrest⟩ second

/-- A guard consumes if what it guards does: **a recovery always takes a token**. -/
theorem Consumes.guarded {recovery : Scan} (h : Consumes grammar P a)
    (hP : ∀ s, P s → s.kind ≠ .eof) : Consumes grammar P (.guarded recovery a) := by
  intro b s s' hs hrun
  cases hrun with
  | guarded_ok inside => exact h b s s' hs inside
  | guarded_fail inside => exact State.rest_recover_lt inside.rest_suffix (hP s hs)

/-- A call consumes if the rule does. -/
theorem Consumes.call {rule : Rule} (h : Consumes grammar P (grammar rule)) :
    Consumes grammar P (.call rule) := by
  intro b s s' hs hrun
  cases hrun with
  | call _ body => exact h _ s s' hs body

/-- A scan that does not stop before the first token passes it. -/
theorem run_scan_pos {scan : Scan} {n : Nesting} {t : Token} {ts : List Token} (ht : t.kind ≠ .eof)
    (hscan : scan n t.kind (headKind ts) ≠ .stop) : 0 < (scan.run n (t :: ts)).1 := by
  rw [Scan.run, if_neg ht]
  cases hmove : scan n t.kind (headKind ts) with
  | stop => exact absurd hmove hscan
  | last => exact Nat.one_pos
  | go m => exact Nat.succ_pos _

/-- A scan that never stops **before** a token passes one when it stops at all. -/
theorem consumes_takeClosed {scan : Scan} {cause : ParseCause}
    (hscan : ∀ n k next, scan n k next ≠ .stop) :
    Consumes grammar P (.takeClosed scan cause) := by
  intro b s s' _ hrun
  cases hrun with
  | takeClosed_ok stopped =>
    cases hs : s.rest with
    | nil =>
      rw [hs, Scan.run] at stopped
      cases stopped
    | cons t ts =>
      by_cases ht : t.kind = .eof
      · rw [hs, Scan.run, if_pos ht] at stopped
        cases stopped
      · have hpos := run_scan_pos ht (hscan {} t.kind (headKind ts))
        rw [← hs] at hpos ⊢
        exact State.rest_advance_lt hpos (by simp [hs])

/-- A test that fails at the end makes sure of a token. -/
theorem consumes_branch_bump {test : Test} (hend : test.answer? .eof = some false)
    (h : Consumes grammar (fun s => P s ∧ test.holds s = false) c) :
    Consumes grammar P (.branch test .bump c) :=
  (consumes_bump fun _ hs => Test.kind_ne_eof hend hs.2).branch h

/-- What is expected is consumed. -/
theorem consumes_expect {kind : TokenKind} (hkind : TokenKind.eof.sameShape kind = false) :
    Consumes grammar P (expect kind) :=
  consumes_branch_bump (by rw [Test.answer?, hkind]) (consumes_fail _)

theorem consumes_expectIdent : Consumes grammar P expectIdent :=
  consumes_branch_bump rfl (consumes_fail _)

/-- An `error` node around the next token consumes it. -/
theorem consumes_errorToken {cause : ParseCause} (h : ∀ s, P s → s.kind ≠ .eof) :
    Consumes grammar P (errorToken cause) := by
  refine Consumes.seq_right (Q := fun s => s.kind ≠ .eof) (Consumes.node (consumes_bump ?_)) ?_
  · rintro _ ⟨s₀, hs₀, rfl⟩
    exact hs₀
  · intro b s s' hs hrun
    cases hrun
    exact h s hs

end Consumes

/-! ## Steady steps have runs -/

section Steady

variable (grammar : Rule → Step)

/-- A step is **steady** if each of its loops goes round only before a token and has a body that
consumes. -/
def Steady : Step → Prop
  | .seq a c => a.Steady ∧ c.Steady
  | .branch _ yes no => yes.Steady ∧ no.Steady
  | .loop test body =>
    test.answer? .eof = some false
      ∧ Consumes grammar (fun s => test.holds s = true) body ∧ body.Steady
  | .ifMoved body moved still => body.Steady ∧ moved.Steady ∧ still.Steady
  | .node _ body => body.Steady
  | .guarded _ body => body.Steady
  | _ => True

/-- Whether a step calls no rule. -/
def callFree : Step → Bool
  | .seq a c => a.callFree && c.callFree
  | .branch _ yes no => yes.callFree && no.callFree
  | .loop _ body => body.callFree
  | .ifMoved body moved still => body.callFree && moved.callFree && still.callFree
  | .node _ body => body.callFree
  | .guarded _ body => body.callFree
  | .call _ => false
  | _ => true

variable {grammar} {b : Nat}

/-- A productive run ends, and it ends in one of two ways. -/
theorem Runs.ok_or_fail {a : Step} {s : State} {o : Outcome} (h : Runs grammar b a s o) :
    (∃ s', o = .ok s') ∨ ∃ e s', o = .fail e s' := by
  induction h with
  | seq_ok _ _ _ ih => exact ih
  | branch_yes _ _ ih => exact ih
  | branch_no _ _ ih => exact ih
  | loop_round _ _ _ _ _ ih => exact ih
  | ifMoved_moved _ _ _ _ ih => exact ih
  | ifMoved_still _ _ _ _ ih => exact ih
  | call _ _ ih => exact ih
  | _ => simp

/-- Whether a step cannot fail: nothing in it fails outside a guard. -/
def unfailing : Step → Bool
  | .seq a c => a.unfailing && c.unfailing
  | .branch _ yes no => yes.unfailing && no.unfailing
  | .loop _ body => body.unfailing
  | .ifMoved body moved still => body.unfailing && moved.unfailing && still.unfailing
  | .node _ body => body.unfailing
  | .fail _ | .takeClosed .. | .call _ => false
  | _ => true

/-- A step without failures succeeds. -/
theorem Runs.ok_of_unfailing {a : Step} {s : State} {o : Outcome} (h : Runs grammar b a s o)
    (ha : a.unfailing = true) : ∃ s', o = .ok s' := by
  induction h with
  | seq_ok _ _ _ ih => exact ih (by simp_all [unfailing])
  | branch_yes _ _ ih => exact ih (by simp_all [unfailing])
  | branch_no _ _ ih => exact ih (by simp_all [unfailing])
  | loop_round _ _ _ _ _ ih => exact ih ha
  | ifMoved_moved _ _ _ _ ih => exact ih (by simp_all [unfailing])
  | ifMoved_still _ _ _ _ ih => exact ih (by simp_all [unfailing])
  | _ => simp_all [unfailing]

/-- Two steps one after the other have a run if the first has one, and the second has one from
wherever the first succeeds. -/
theorem exists_runs_seq {a c : Step} {s : State} (ha : ∃ o, Runs grammar b a s o)
    (hc : ∀ s', Runs grammar b a s (.ok s') → ∃ o, Runs grammar b c s' o) :
    ∃ o, Runs grammar b (.seq a c) s o := by
  obtain ⟨o, ho⟩ := ha
  rcases ho.ok_or_fail with ⟨s', rfl⟩ | ⟨e, s', rfl⟩
  · obtain ⟨o', ho'⟩ := hc s' ho
    exact ⟨o', .seq_ok ho ho'⟩
  · exact ⟨_, .seq_fail ho⟩

/-- A node has a run if what is inside it has one. -/
theorem exists_runs_node {body : Step} {kind : NodeKind} {s : State}
    (h : ∃ o, Runs grammar b body (s.openNode kind) o) :
    ∃ o, Runs grammar b (.node kind body) s o := by
  obtain ⟨o, ho⟩ := h
  rcases ho.ok_or_fail with ⟨s', rfl⟩ | ⟨e, s', rfl⟩
  · exact ⟨_, .node_ok ho⟩
  · exact ⟨_, .node_fail ho⟩

/-- A branch has a run if each way has one where it is taken. -/
theorem exists_runs_branch {test : Test} {yes no : Step} {s : State}
    (hyes : test.holds s = true → ∃ o, Runs grammar b yes s o)
    (hno : test.holds s = false → ∃ o, Runs grammar b no s o) :
    ∃ o, Runs grammar b (.branch test yes no) s o := by
  cases htest : test.holds s with
  | true =>
    obtain ⟨o, ho⟩ := hyes htest
    exact ⟨o, .branch_yes htest ho⟩
  | false =>
    obtain ⟨o, ho⟩ := hno htest
    exact ⟨o, .branch_no htest ho⟩

/-- So has a choice. -/
theorem exists_runs_choose {cases : List (Test × Step)} {otherwise : Step} {s : State}
    (hcases : ∀ c ∈ cases, c.1.holds s = true → ∃ o, Runs grammar b c.2 s o)
    (hother : ∃ o, Runs grammar b otherwise s o) :
    ∃ o, Runs grammar b (choose cases otherwise) s o := by
  induction cases with
  | nil => exact hother
  | cons c cs ih =>
    refine exists_runs_branch (hcases c (List.mem_cons_self ..)) fun _ => ?_
    exact ih fun d hd => hcases d (List.mem_cons_of_mem _ hd)

/-- A loop has a run if its body has one from every state the loop can reach. The induction is on
the number of tokens left, which every round lowers. -/
theorem exists_runs_loop {test : Test} {body : Step} (hend : test.answer? .eof = some false)
    (hbody : Consumes grammar (fun s => test.holds s = true) body) (s : State)
    (h : ∀ s', s'.rest.length ≤ s.rest.length → ∃ o, Runs grammar b body s' o) :
    ∃ o, Runs grammar b (.loop test body) s o := by
  induction hn : s.rest.length using Nat.strongRecOn generalizing s with
  | _ n ih =>
    subst hn
    cases htest : test.holds s with
    | false => exact ⟨_, .loop_done htest⟩
    | true =>
      obtain ⟨o, ho⟩ := h s (Nat.le_refl _)
      rcases ho.ok_or_fail with ⟨s₁, rfl⟩ | ⟨e, s₁, rfl⟩
      · have hlt : s₁.rest.length < s.rest.length := hbody b s s₁ htest ho
        obtain ⟨o', ho'⟩ := ih s₁.rest.length hlt s₁ (fun s' hs' => h s' (by omega)) rfl
        exact ⟨o', .loop_round htest ho hlt ho'⟩
      · exact ⟨_, .loop_fail htest (State.ne_nil_of_kind (Test.kind_ne_eof hend htest)) ho⟩

/-- **A steady step has a productive run** from every state with fewer tokens than the rule around
it began with. A step that calls no rule has one from every state. -/
theorem exists_runs
    (hrules : ∀ rule s, s.rest.length < b → ∃ o, Runs grammar s.rest.length (grammar rule) s o)
    (a : Step) : ∀ s, Steady grammar a → (a.callFree = false → s.rest.length < b) →
      ∃ o, Runs grammar b a s o := by
  induction a with
  | skip => exact fun s _ _ => ⟨_, .skip⟩
  | bump => exact fun s _ _ => ⟨_, .bump⟩
  | take scan => exact fun s _ _ => ⟨_, .take⟩
  | fail cause => exact fun s _ _ => ⟨_, .fail⟩
  | report cause => exact fun s _ _ => ⟨_, .report⟩
  | enter part => exact fun s _ _ => ⟨_, .enter⟩
  | noteBodiless value => exact fun s _ _ => ⟨_, .noteBodiless⟩
  | noteClosed => exact fun s _ _ => ⟨_, .noteClosed⟩
  | takeClosed scan cause =>
    intro s _ _
    cases hstop : (scan.run {} s.rest).2 with
    | true => exact ⟨_, .takeClosed_ok hstop⟩
    | false => exact ⟨_, .takeClosed_fail hstop⟩
  -- Tokens are never put back, so the second step begins with no more than the first one did.
  | seq a c iha ihc =>
    intro s hsteady hcalls
    refine exists_runs_seq (iha s hsteady.1 fun h => hcalls (by simp [callFree, h])) ?_
    intro s' hrun
    refine ihc s' hsteady.2 fun h => ?_
    exact Nat.lt_of_le_of_lt hrun.rest_le (hcalls (by simp [callFree, h]))
  | branch test yes no ihyes ihno =>
    intro s hsteady hcalls
    exact exists_runs_branch
      (fun _ => ihyes s hsteady.1 fun h => hcalls (by simp [callFree, h]))
      (fun _ => ihno s hsteady.2 fun h => hcalls (by simp [callFree, h]))
  -- Each round consumes a token, so the rounds come to an end by themselves.
  | loop test body ih =>
    intro s hsteady hcalls
    refine exists_runs_loop hsteady.1 hsteady.2.1 s fun s' hs' => ?_
    exact ih s' hsteady.2.2 fun h => Nat.lt_of_le_of_lt hs' (hcalls h)
  | ifMoved body moved still ihbody ihmoved ihstill =>
    intro s hsteady hcalls
    obtain ⟨o, ho⟩ := ihbody s hsteady.1 fun h => hcalls (by simp [callFree, h])
    rcases ho.ok_or_fail with ⟨s₁, rfl⟩ | ⟨e, s₁, rfl⟩
    · have hle := ho.rest_le
      by_cases hlt : s₁.rest.length < s.rest.length
      · obtain ⟨o', ho'⟩ := ihmoved s₁ hsteady.2.1 fun h =>
          Nat.lt_of_le_of_lt hle (hcalls (by simp [callFree, h]))
        exact ⟨o', .ifMoved_moved ho hlt ho'⟩
      · obtain ⟨o', ho'⟩ := ihstill s₁ hsteady.2.2 fun h =>
          Nat.lt_of_le_of_lt hle (hcalls (by simp [callFree, h]))
        exact ⟨o', .ifMoved_still ho hlt ho'⟩
    · exact ⟨_, .ifMoved_fail ho⟩
  | node kind body ih =>
    intro s hsteady hcalls
    exact exists_runs_node (ih (s.openNode kind) hsteady hcalls)
  | guarded recovery body ih =>
    intro s hsteady hcalls
    obtain ⟨o, ho⟩ := ih s hsteady hcalls
    rcases ho.ok_or_fail with ⟨s₁, rfl⟩ | ⟨e, s₁, rfl⟩
    · exact ⟨_, .guarded_ok ho⟩
    · exact ⟨_, .guarded_fail ho⟩
  -- Fewer tokens are left than the rule around began with, which is what makes the call productive.
  | call rule =>
    intro s _ hcalls
    obtain ⟨o, ho⟩ := hrules rule s (hcalls rfl)
    exact ⟨o, .call (hcalls rfl) ho⟩

/-- The way into a rule: a node whose **first step calls nothing and consumes**, so that all calls
come after a token. -/
theorem exists_runs_node_seq {kind : NodeKind} {first others : Step} {s : State}
    (hrules : ∀ rule s', s'.rest.length < s.rest.length →
      ∃ o, Runs grammar s'.rest.length (grammar rule) s' o)
    (hsteady : Steady grammar (.seq first others)) (hfree : first.callFree = true)
    (hfirst : Consumes grammar (fun s' => s' = s.openNode kind) first) :
    ∃ o, Runs grammar s.rest.length (.node kind (.seq first others)) s o := by
  have hbegin := exists_runs hrules first (s.openNode kind) hsteady.1 (by simp [hfree])
  refine exists_runs_node (exists_runs_seq hbegin fun s' hrun => ?_)
  refine exists_runs hrules others s' hsteady.2 fun _ => ?_
  simpa using hfirst _ (s.openNode kind) s' rfl hrun

end Steady

end Step

/-! ## The loops of the grammar

Each loop of the grammar is steady, and so is every step that contains it. -/

namespace Grammar

open Step

theorem steady_expect (kind : TokenKind) : Steady rules (expect kind) := by
  simp [expect, Steady]

theorem steady_expectIdent : Steady rules expectIdent := by
  simp [expectIdent, Steady]

/-- A stretch in brackets has no loop. -/
theorem steady_optionalBracketed (opening closing : Symbol) :
    Steady rules (optionalBracketed opening closing) := by
  simp [optionalBracketed, bracketed, when, Steady]

/-- Each round of a name with dots consumes a dot. -/
theorem steady_dottedName : Steady rules dottedName := by
  refine ⟨steady_expectIdent, rfl, ?_, by simp [all, Steady]⟩
  exact (consumes_bump fun _ => Test.kind_ne_eof rfl).seq_left

theorem steady_unitHeader : Steady rules unitHeader := by
  refine ⟨trivial, steady_dottedName, steady_optionalBracketed _ _, steady_expect _⟩

/-- A used unit has no loop but that of its name. -/
theorem steady_usedUnit : Steady rules usedUnit := by
  refine ⟨steady_dottedName, ?_⟩
  simp [when, all, Steady, steady_expect]

/-- Each round over the used units consumes a comma. -/
theorem steady_usesClause : Steady rules usesClause := by
  refine ⟨trivial, steady_usedUnit, ⟨rfl, ?_, trivial, steady_usedUnit⟩, steady_expect _⟩
  exact (consumes_bump fun _ => Test.kind_ne_eof rfl).seq_left

/-- A directive is at least its own word: the note before it leaves the tokens alone. -/
theorem consumes_directiveClause :
    Consumes rules (fun s => directive.holds s = true) directiveClause := by
  refine Consumes.seq_right (Q := fun s => s.kind ≠ .eof) ?_ ?_
  · exact (consumes_bump fun _ hs => hs).seq_left
  · intro b s s' hs hrun
    have hkind : s.kind ≠ .eof := Test.kind_ne_eof rfl hs
    cases hrun with
    | branch_yes _ run => cases run; exact hkind
    | branch_no _ run => cases run; exact hkind

/-- Each round over the directives of a heading consumes one. -/
theorem steady_routineHeading : Steady rules routineHeading := by
  have hdotted : Consumes rules (fun s => dottedPart.holds s = true)
      (all [.bump, .bump, optionalBracketed .lt .gt]) :=
    (consumes_bump fun _ => Test.kind_ne_eof rfl).seq_left
  refine ⟨by simp [when, Steady], by simp [Steady], steady_expectIdent,
    steady_optionalBracketed _ _, ⟨rfl, hdotted, trivial, trivial, steady_optionalBracketed _ _⟩,
    ?_, ?_, ?_, ?_, trivial, rfl, consumes_directiveClause, ?_⟩
  all_goals
    simp [when, formalParams, bracketed, typeUpTo, optionalSemi, directiveClause, all, Steady]

/-- Each round over the names of a field consumes a comma. -/
theorem steady_fieldDecl : Steady rules fieldDecl := by
  refine ⟨steady_expectIdent, ⟨rfl, ?_, trivial, steady_expectIdent⟩, steady_expect _, trivial, ?_⟩
  · exact (consumes_bump fun _ => Test.kind_ne_eof rfl).seq_left
  · simp [optionalSemi, when, all, Steady]

theorem steady_propertyDecl : Steady rules propertyDecl := by
  refine ⟨trivial, steady_expectIdent, steady_optionalBracketed _ _, ?_, trivial,
    steady_expect _, ?_⟩
  all_goals simp [when, typeUpTo, all, Steady]

/-- A bracketed stretch has at least the bracket that closes it. -/
theorem consumes_bracketed {P : State → Prop} (opening closing : Symbol) :
    Consumes rules P (bracketed opening closing) := by
  refine consumes_takeClosed ?_
  intro n k next
  unfold Scan.balanced
  repeat' split
  all_goals simp

/-- Each round over a variant part consumes a token, or a stretch in brackets. -/
theorem steady_variantPart : Steady rules variantPart := by
  refine ⟨rfl, Consumes.branch (consumes_bracketed _ _) ?_, by simp [bracketed, Steady]⟩
  exact consumes_bump fun _ hs => Test.kind_ne_eof rfl hs.1

/-- No member has another loop than these. -/
theorem steady_member : Steady rules member := by
  simp [member, choose, all, Steady, steady_propertyDecl, steady_routineHeading, steady_variantPart,
    steady_fieldDecl, optionalSemi, when]

/-- A member that neither consumes nor fails leaves its token to the `error` node. -/
theorem steady_members : Steady rules members := by
  refine ⟨⟨rfl, Consumes.ifMoved (consumes_errorToken ?_), steady_member, trivial, ?_⟩,
    steady_expect _⟩
  · rintro s' ⟨s, hs, hrest⟩
    rw [State.kind, hrest]
    exact Test.kind_ne_eof rfl hs
  · simp [errorToken, Steady]

/-- Each round over the modifiers of a class consumes one. -/
theorem steady_classRest {body : Step} (h : Steady rules body) : Steady rules (classRest body) := by
  refine ⟨trivial, ⟨rfl, ?_, trivial⟩, by simp [when, bracketed, Steady], h⟩
  exact consumes_bump fun _ => Test.kind_ne_eof rfl

/-- Each round over the members of a class **consumes one or an error token**. -/
theorem steady_classType : Steady rules classType := by
  refine ⟨steady_classRest steady_members, steady_classRest ⟨trivial, steady_members⟩⟩

theorem steady_typeDecl : Steady rules typeDecl := by
  refine ⟨steady_expectIdent, steady_optionalBracketed _ _, steady_expect _, by simp [when, Steady],
    ?_, trivial, steady_expect _⟩
  simp [choose, all, when, Steady, steady_classType]

/-- Each round over type declarations consumes a name. -/
theorem steady_typeSection : Steady rules typeSection := by
  refine ⟨trivial, rfl, Consumes.guarded ?_ fun _ => Test.kind_ne_eof rfl, steady_typeDecl⟩
  exact (consumes_expectIdent.seq_left).node

/-- Local declarations are one stretch of tokens. -/
theorem steady_localDecls : Steady rules localDecls := by
  simp [localDecls, all, Steady]

/-! ### Statements -/

/-- Where a list of statements ends: before one of some kinds, or at the end of the tokens. -/
def listEnd (stops : List TokenKind) : Test :=
  .or .eof (.any (stops.map .here))

@[simp] theorem holds_listEnd (stops : List TokenKind) (s : State) :
    (listEnd stops).holds s = (s.kind.sameShape .eof || stops.any s.kind.sameShape) := by
  simp [listEnd, Test.holds, Test.eof, Function.comp_def]

/-- One round of a list of statements. -/
def statementRound (stops : List TokenKind) : Step :=
  .ifMoved (.guarded .toStatementEnd (.call .statement))
    (choose [(.symbol .semi, .bump), (listEnd stops, .skip)] (.report .separator))
    (choose [(.symbol .semi, .bump), (listEnd stops, .skip)] (errorToken .statementList))

theorem statements_eq (stops : List TokenKind) :
    statements stops = .loop (.not (listEnd stops)) (statementRound stops) := rfl

/-- A round of a list of statements consumes a token. If its statement was empty, the parser still
stands where the round began, so **not** at the end of the list. -/
theorem consumes_statementRound (stops : List TokenKind) :
    Consumes rules (fun s => (Test.not (listEnd stops)).holds s = true) (statementRound stops) := by
  refine Consumes.ifMoved (consumes_branch_bump rfl (Consumes.branch ?_ (consumes_errorToken ?_)))
  · -- The list has not ended since the round began.
    rintro b s' _ ⟨⟨⟨s, hs, hrest⟩, -⟩, hended⟩ -
    have hkind : s'.kind = s.kind := by rw [State.kind, State.kind, hrest]
    rw [holds_listEnd, hkind, ← holds_listEnd] at hended
    rw [Test.holds, hended] at hs
    exact absurd hs (by decide)
  · rintro s' ⟨⟨⟨s, hs, hrest⟩, -⟩, -⟩
    rw [State.kind, hrest]
    exact Test.kind_ne_eof rfl hs

/-- Each round over statements consumes one, a `;` or an error token. -/
theorem steady_statements (stops : List TokenKind) : Steady rules (statements stops) := by
  rw [statements_eq]
  refine ⟨rfl, consumes_statementRound stops, ?_⟩
  simp [statementRound, choose, errorToken, Steady]

theorem steady_compound : Steady rules compound := by
  refine ⟨steady_expect _, steady_statements _, steady_expect _⟩

theorem steady_headed (kind : NodeKind) : Steady rules (headed kind) := by
  refine ⟨trivial, trivial, steady_expect _, trivial⟩

/-- A conditional has no loop of its own. -/
theorem steady_conditional : Steady rules conditional := by
  refine ⟨trivial, trivial, steady_expect _, trivial, ?_⟩
  simp [when, all, Steady]

theorem steady_repetition : Steady rules repetition := by
  refine ⟨trivial, steady_statements _, steady_expect _, trivial⟩

/-- A round of a `case` consumes a token or fails, since that is what it asks itself in the end. -/
theorem steady_caseStatement : Steady rules caseStatement := by
  refine ⟨trivial, trivial, steady_expect _, ⟨rfl, Consumes.ifMoved (consumes_fail _), ?_⟩,
    steady_expect _⟩
  simp [choose, caseArm, expression, all, Steady, steady_statements, steady_expect]

/-- Each round over handlers consumes one. -/
theorem steady_tryStatement : Steady rules tryStatement := by
  have hhandler : Consumes rules (fun s => (Test.word "on".toList).holds s = true) handler :=
    (consumes_bump fun _ => Test.kind_ne_eof rfl).seq_left
  refine ⟨trivial, steady_statements _, ?_, steady_expect _⟩
  refine ⟨⟨trivial, ⟨rfl, hhandler, trivial, trivial, steady_expect _, trivial, ?_⟩, ?_,
    steady_statements _⟩, ⟨trivial, steady_statements _⟩, trivial⟩
  all_goals simp [optionalSemi, when, all, Steady]

/-- Assembler is one stretch of tokens. -/
theorem steady_assembler : Steady rules assembler := by
  refine ⟨trivial, trivial, steady_expect _⟩

/-! ### Routines and units -/

/-- A heading has at least the word that opens it. -/
theorem consumes_routineHeading (P : State → Prop) : Consumes rules P routineHeading := by
  refine Consumes.node (Consumes.seq_after ?_)
  exact (consumes_branch_bump rfl (consumes_fail _)).seq_left

/-- A routine consumes the word of its heading. -/
theorem consumes_routine (P : State → Prop) : Consumes rules P routine :=
  Consumes.node (consumes_routineHeading _).seq_left

/-- Each round over local routines consumes one. -/
theorem steady_routineBody : Steady rules routineBody := by
  refine ⟨⟨rfl, Consumes.branch ?_ (Consumes.call (consumes_routine _)), steady_localDecls,
    trivial⟩, ⟨steady_compound, steady_assembler, trivial⟩, ?_⟩
  · refine Consumes.node (consumes_bump ?_).seq_left
    rintro _ ⟨s, hs, rfl⟩
    show s.kind ≠ .eof
    exact Test.kind_ne_eof rfl hs.2
  · simp [optionalSemi, when, all, Steady]

theorem steady_routine : Steady rules routine := by
  refine ⟨steady_routineHeading, steady_routineBody, trivial⟩

/-- A part of the unit has no loop but that of its statements. -/
theorem steady_unitSection : Steady rules unitSection := by
  refine ⟨steady_compound, trivial, steady_statements _⟩

/-- An item of the unit has no loop but those of its parts. -/
theorem steady_unitItem : Steady rules unitItem := by
  simp [unitItem, choose, declaration, all, when, errorToken, Steady, steady_unitHeader,
    steady_usesClause, steady_typeSection, steady_localDecls, steady_unitSection]

/-- Each round over the items of the unit **consumes one or an error token**. -/
theorem steady_unit : Steady rules unit := by
  refine ⟨rfl, Consumes.ifMoved (consumes_errorToken ?_), steady_unitItem, trivial, ?_⟩
  · rintro s' ⟨s, hs, hrest⟩
    rw [State.kind, hrest]
    exact Test.kind_ne_eof rfl hs
  · simp [errorToken, Steady]

/-! ## The whole parser -/

/-- **Every call of a rule has a productive run.** The induction is on the number of tokens that are
left; each way into a statement and into a routine consumes a token before anything is called. -/
theorem exists_runs_rule (rule : Rule) (s : State) :
    ∃ o, Runs rules s.rest.length (rules rule) s o := by
  induction hn : s.rest.length using Nat.strongRecOn generalizing rule s with
  | _ n ih =>
    subst hn
    have hrules : ∀ rule s', s'.rest.length < s.rest.length →
        ∃ o, Runs rules s'.rest.length (rules rule) s' o :=
      fun rule s' hlt => ih _ hlt rule s' rfl
    -- The word that selects a statement is still the next token inside its node.
    have hword : ∀ {word : Keyword} {kind : NodeKind}, (Test.keyword word).holds s = true →
        Consumes rules (fun s' => s' = s.openNode kind) .bump := by
      intro word kind hs
      refine consumes_bump ?_
      rintro _ rfl
      have hend : (Test.keyword word).answer? .eof = some false := rfl
      exact Test.kind_ne_eof hend hs
    cases rule with
    | routine =>
      exact exists_runs_node_seq hrules steady_routine rfl (consumes_routineHeading _)
    | statement =>
      refine exists_runs_choose ?_ ⟨_, .node_ok .take⟩
      simp only [List.forall_mem_cons]
      refine ⟨fun _ => ?_, fun h => ?_, fun h => ?_, fun h => ?_, fun h => ?_, fun h => ?_,
        fun h => ?_, fun h => ?_, fun h => ?_, fun _ => ⟨_, .skip⟩, by simp⟩
      · exact exists_runs_node_seq hrules steady_compound rfl (consumes_expect rfl)
      · exact exists_runs_node_seq hrules steady_conditional rfl (hword h)
      · exact exists_runs_node_seq hrules (steady_headed .whileStmt) rfl (hword h)
      · exact exists_runs_node_seq hrules (steady_headed .forStmt) rfl (hword h)
      · exact exists_runs_node_seq hrules (steady_headed .withStmt) rfl (hword h)
      · exact exists_runs_node_seq hrules steady_caseStatement rfl (hword h)
      · exact exists_runs_node_seq hrules steady_repetition rfl (hword h)
      · exact exists_runs_node_seq hrules steady_tryStatement rfl (hword h)
      · exact exists_runs_node_seq hrules steady_assembler rfl (hword h)

/-- The parser has a productive run over every list of tokens, and it ends in the state from
which the tree is taken. -/
theorem runs_unit (tokens : List Token) :
    Runs rules (tokens.length + 1) unit (State.initial tokens) (.ok (Token.parseState tokens)) := by
  obtain ⟨o, ho⟩ := exists_runs (fun rule s _ => exists_runs_rule rule s) unit
    (State.initial tokens)
    steady_unit (fun _ => Nat.lt_succ_self _)
  -- Every failure inside a unit is caught by a guard.
  obtain ⟨s', rfl⟩ := ho.ok_of_unfailing rfl
  have hrun : unit.run (Rule.run rules (tokens.length + 1)) (State.initial tokens) = .ok s' :=
    ho.run_eq _ (Nat.le_refl _)
  rw [Token.parseState, hrun]
  exact ho

/-- A recovery that passes an `end` or `until` has a block open, which it closes. -/
theorem blocks_toStatementEnd {n m : Nesting} {k next : TokenKind}
    (hk : k = .keyword .kwEnd ∨ k = .keyword .kwUntil)
    (hgo : Scan.toStatementEnd n k next = .go m) : m.blocks + 1 = n.blocks := by
  by_cases hblocks : n.blocks = 0
  · -- Outside blocks both words end the statement, so the scan does not go on.
    rcases hk with rfl | rfl <;> simp [Scan.toStatementEnd, Scan.isTerminator, hblocks] at hgo
  · have hm : { n with blocks := n.blocks - 1 } = m := by
      rcases hk with rfl | rfl <;> simpa [Scan.toStatementEnd, hblocks] using hgo
    rw [← hm]
    show n.blocks - 1 + 1 = n.blocks
    omega

/-- A scan of a structured type that goes on behind an `end` has a block open, which it closes. -/
theorem blocks_throughEnd {n m : Nesting} {next : TokenKind}
    (hgo : Scan.throughEnd n (.keyword .kwEnd) next = .go m) : m.blocks + 1 = n.blocks := by
  by_cases hblocks : n.blocks = 0
  · simp [Scan.throughEnd, hblocks] at hgo
  · have hm : { n with blocks := n.blocks - 1 } = m := by
      simpa [Scan.throughEnd, hblocks] using hgo
    rw [← hm]
    show n.blocks - 1 + 1 = n.blocks
    omega

/-- **The parser is total.** Over every list of tokens it has a productive run: each round of a loop
consumes a token or leaves the loop, and each call of a rule is made with fewer tokens than the call
around it. So the bound on calls is never met, whatever it is above the number of tokens. And where
the two scans that count blocks go on behind the word that closes one, the count is not zero, so
that lowering it by one is exact. -/
theorem parse_total (tokens : List Token) :
    Runs rules (tokens.length + 1) unit (State.initial tokens) (.ok (Token.parseState tokens)) ∧
    (∀ n, tokens.length < n →
      unit.run (Rule.run rules n) (State.initial tokens) = .ok (Token.parseState tokens)) ∧
    (∀ n k next m, k = .keyword .kwEnd ∨ k = .keyword .kwUntil →
      Scan.toStatementEnd n k next = .go m → m.blocks + 1 = n.blocks) ∧
    (∀ n next m, Scan.throughEnd n (.keyword .kwEnd) next = .go m → m.blocks + 1 = n.blocks) := by
  have hrun := runs_unit tokens
  refine ⟨hrun, fun n hn => hrun.run_eq n hn, ?_, ?_⟩
  · exact fun n k next m hk hgo => blocks_toStatementEnd hk hgo
  · exact fun n next m hgo => blocks_throughEnd hgo

/-- Three tokens that open what is never closed, without an `eof`; and the two counts where they go
down from one to zero. -/
theorem parse_total_unclosed :
    ∃ tokens, tokens = [⟨.keyword .kwBegin, 0, 5⟩, ⟨.keyword .kwRepeat, 6, 12⟩,
        ⟨.symbol .lParen, 13, 14⟩] ∧
      unit.run (Rule.run rules 4) (State.initial tokens) = .ok (Token.parseState tokens) ∧
      Scan.toStatementEnd { blocks := 1 } (.keyword .kwUntil) .eof = .go { blocks := 0 } ∧
      (⟨0, 0, false⟩ : Nesting).blocks + 1 = (⟨0, 1, false⟩ : Nesting).blocks ∧
      Scan.throughEnd { blocks := 1 } (.keyword .kwEnd) .eof = .go { blocks := 0 } ∧
      (⟨0, 0, false⟩ : Nesting).blocks + 1 = (⟨0, 1, false⟩ : Nesting).blocks := by
  obtain ⟨-, hrun, hstatement, hend⟩ := parse_total
    [⟨.keyword .kwBegin, 0, 5⟩, ⟨.keyword .kwRepeat, 6, 12⟩, ⟨.symbol .lParen, 13, 14⟩]
  refine ⟨_, rfl, hrun 4 (by decide), rfl, ?_, rfl, ?_⟩
  · exact hstatement ⟨0, 1, false⟩ (.keyword .kwUntil) .eof ⟨0, 0, false⟩ (.inr rfl) rfl
  · exact hend ⟨0, 1, false⟩ .eof ⟨0, 0, false⟩ rfl

end Grammar

end PascalAtlas
