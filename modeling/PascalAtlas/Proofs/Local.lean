import PascalAtlas.Proofs.Yield

/-!
# Runs that stop in time

A statement is read without a look at what comes behind the word that ends it. So where a list of
statements has been read **once**, with no error and with a token of its own still to come, it is
read in the same way wherever it stands: what follows can be exchanged, and so can everything around
it (`Runs.elsewhere`).

The steps for which this holds test the kind of the next token and nothing else; they are called
near. No error may have been recorded on the way, since a recovery looks for the next place to go
on, and what follows has a say in that.
-/

namespace PascalAtlas

/-! ## Near steps -/

/-- A test that looks at the **next token** and at nothing else. -/
def Test.near : Test → Bool
  | .here _ | .word _ | .never => true
  | .or a b | .and a b => a.near && b.near
  | .not a => a.near
  | _ => false

/-- A near test sees the next kind and nothing else. -/
theorem Test.holds_near {test : Test} (h : test.near = true) {s t : State}
    (hkind : t.kind = s.kind) :
    test.holds t = test.holds s := by
  induction test with
  | here kind => rw [holds, hkind, holds]
  | word spelling => rw [holds, hkind, holds]
  | never => rfl
  | or a b iha ihb =>
    rw [near, Bool.and_eq_true] at h
    rw [holds, iha h.1, ihb h.2, holds]
  | and a b iha ihb =>
    rw [near, Bool.and_eq_true] at h
    rw [holds, iha h.1, ihb h.2, holds]
  | not a ih =>
    rw [near] at h
    rw [holds, ih h, holds]
  | _ => cases h

/-- A scan that does not look at the token after the next one. -/
def Scan.Near (scan : Scan) : Prop :=
  ∀ n k next next', scan n k next = scan n k next'

/-- **Near steps.** They look one token ahead, change no mark, and call nothing but statements. -/
def Step.Near : Step → Prop
  | .skip | .bump | .fail _ | .report _ => True
  | .take scan => scan.Near
  | .seq a b => a.Near ∧ b.Near
  | .branch test a b => test.near = true ∧ a.Near ∧ b.Near
  | .loop test body => test.near = true ∧ body.Near
  | .ifMoved body moved still => body.Near ∧ moved.Near ∧ still.Near
  | .node _ body | .guarded _ body => body.Near
  | .call rule => rule = .statement
  | _ => False

/-- A scan that stopped before the end of `u ++ v` stops there whatever comes behind. -/
theorem Scan.Near.run_eq {scan : Scan} (hscan : scan.Near) {n : Nesting} {u v z : List Token}
    (hv : v ≠ []) (h : (scan.run n (u ++ (v ++ z))).1 = u.length) (z' : List Token) :
    (scan.run n (u ++ (v ++ z'))).1 = u.length := by
  induction u generalizing n with
  | nil =>
    obtain ⟨t, v, rfl⟩ := List.exists_cons_of_ne_nil hv
    simp only [List.nil_append, List.cons_append, run] at h ⊢
    by_cases ht : t.kind = .eof
    · rw [if_pos ht]
      rfl
    · rw [if_neg ht] at h ⊢
      -- A near scan does not look at the token behind, which is where the two texts may differ.
      rw [hscan n t.kind _ (headKind (v ++ z))]
      split at h
      · rfl
      · cases h
      · cases h
  | cons t u ih =>
    simp only [List.cons_append, run] at h ⊢
    by_cases ht : t.kind = .eof
    · rw [if_pos ht] at h
      cases h
    · rw [if_neg ht] at h ⊢
      rw [hscan n t.kind _ (headKind (u ++ (v ++ z)))]
      split at h
      · cases h
      · exact h
      · exact congrArg (· + 1) (ih (Nat.succ.inj h))

/-! ## Errors are kept -/

namespace State

@[simp] theorem errors_push (s : State) (trees : List Tree) : (s.push trees).errors = s.errors := by
  unfold push
  split <;> rfl

@[simp] theorem errors_bump (s : State) : s.bump.errors = s.errors := by
  unfold bump
  split
  · rfl
  · split
    · rfl
    · rw [errors_push]

@[simp] theorem errors_advance (s : State) (n : Nat) : (s.advance n).errors = s.errors := by
  rw [advance, errors_push]

/-- Finishing a node records no error. -/
@[simp] theorem errors_closeNode (s : State) : s.closeNode.errors = s.errors := by
  unfold closeNode
  split <;> rfl

/-- A recovery records the error of the failure. -/
theorem errors_recover (recovery : Scan) (entry : State) (error : ParseError) (s : State) :
    (recover recovery entry error s).errors = s.errors ++ [error] := by
  simp only [recover, errors_closeNode]
  split
  · rw [errors_bump, errors_advance]
    rfl
  · rw [errors_advance]
    rfl

/-- Behind a node that was opened, and before a token, the node begins at that
token if it is empty. -/
theorem closeNode_before {s : State} (hs : s.frames ≠ []) (kind : NodeKind) (t : Token)
    (rest : List Token) (trees : List Tree) :
    ((s.openNode kind).past (t :: rest) trees).closeNode
      = s.past (t :: rest) [Tree.ofChildren kind trees t.start] := by
  obtain ⟨f, fs, hfs⟩ := List.exists_cons_of_ne_nil hs
  simp [closeNode, past, openNode, Frame.grow, hfs, offset]

end State

namespace Step

variable {grammar : Rule → Step} {a : Step} {s s' : State} {o : Outcome} {b : Nat}

/-- A run adds to the errors and takes none away. -/
theorem Runs.errors_grow (h : Runs grammar b a s o) : s.errors <+: o.state.errors := by
  induction h with
  | bump => simp [Outcome.state]
  | take => simp [Outcome.state]
  | takeClosed_ok => simp [Outcome.state]
  | takeClosed_fail => simp [Outcome.state]
  | report => exact List.prefix_append _ _
  | seq_ok _ _ ih₁ ih₂ => exact ih₁.trans ih₂
  | seq_fail _ ih => exact ih
  | branch_yes _ _ ih => exact ih
  | branch_no _ _ ih => exact ih
  | loop_round _ _ _ _ ih₁ ih₂ => exact ih₁.trans ih₂
  | loop_fail _ _ _ ih => exact ih
  | ifMoved_moved _ _ _ ih₁ ih₂ => exact ih₁.trans ih₂
  | ifMoved_still _ _ _ ih₁ ih₂ => exact ih₁.trans ih₂
  | ifMoved_fail _ ih => exact ih
  | node_ok _ ih =>
    rw [Outcome.state, State.errors_closeNode]
    exact ih
  | node_fail _ ih => exact ih
  | guarded_ok _ ih => exact ih
  | guarded_fail _ ih =>
    rw [Outcome.state, State.errors_recover]
    exact ih.trans (List.prefix_append _ _)
  | call _ _ ih => exact ih
  | _ => exact List.prefix_refl _

/-! ## What follows can be exchanged -/

/-- From `s` the step ends in `s'`, and **wherever** the tokens it consumed come next, with the same
token behind them, it consumes them too and adds the same trees. -/
def Elsewhere (grammar : Rule → Step) (b : Nat) (a : Step) (s s' : State) : Prop :=
  ∀ w v z, s.rest = w ++ z → s'.rest = v ++ z → v ≠ [] → s.frames ≠ [] →
    ∃ F, s' = s.past (v ++ z) F ∧ ∀ c t z', t.rest = w ++ z' → t.frames ≠ [] →
      b + z'.length ≤ c + z.length → Runs grammar c a t (.ok (t.past (v ++ z') F))

/-- What was left in between is what is left at the end and more. -/
theorem rest_between {s₁ : State} {w v z : List Token} (hs : s.rest = w ++ z)
    (hs' : s'.rest = v ++ z) (hfirst : s₁.rest <:+ s.rest) (hsecond : s'.rest <:+ s₁.rest) :
    ∃ u x y, s₁.rest = u ++ z ∧ w = x ++ u ∧ u = y ++ v := by
  obtain ⟨x, hx⟩ := hfirst
  obtain ⟨y, hy⟩ := hsecond
  rw [hs', ← List.append_assoc] at hy
  rw [← hy, hs, ← List.append_assoc] at hx
  exact ⟨y ++ v, x, y, hy.symm, (List.append_cancel_right hx).symm, rfl⟩

/-- The token in front is the same wherever a run is repeated that leaves a token of its own. -/
theorem kind_elsewhere {t : State} {w v z z' : List Token} (hs : s.rest = w ++ z)
    (hs' : s'.rest = v ++ z) (hsuffix : s'.rest <:+ s.rest) (hv : v ≠ []) (ht : t.rest = w ++ z') :
    t.kind = s.kind := by
  obtain ⟨-, x, y, -, rfl, rfl⟩ := rest_between hs hs' hsuffix (List.suffix_refl _)
  obtain ⟨front, w, hw⟩ := List.exists_cons_of_ne_nil (show x ++ (y ++ v) ≠ [] by simp [hv])
  rw [State.kind, State.kind, hs, ht, hw]
  rfl

/-! Of each step it is said what it needs to be found elsewhere: nothing but the token in front, and
for steps that are made of others that these are found. -/

/-- A step that **stays where it is**. -/
theorem elsewhere_still (hruns : ∀ c t, t.kind = s.kind → Runs grammar c a t (.ok t)) :
    Elsewhere grammar b a s s := by
  intro w v z hs hs' hv _
  obtain rfl := List.append_cancel_right (hs.symm.trans hs')
  refine ⟨[], (State.past_nil hs).symm, fun c t z' ht _ _ => ?_⟩
  rw [State.past_nil ht]
  exact hruns c t (kind_elsewhere hs hs (List.suffix_refl _) hv ht)

/-- A single move is made in the same way elsewhere. -/
theorem elsewhere_bump : Elsewhere grammar b .bump s s.bump := by
  by_cases hkind : s.kind = .eof
  · -- The end of the tokens stays where it is.
    have hstill : Elsewhere grammar b .bump s s := by
      refine elsewhere_still fun c t ht => ?_
      have hrun : Runs grammar c .bump t (.ok t.bump) := .bump
      rwa [State.bump_eof (ht.trans hkind)] at hrun
    rwa [State.bump_eof hkind]
  · intro w v z hs hs' hv _
    rw [State.rest_bump hkind, hs] at hs'
    obtain ⟨x, w, rfl⟩ : ∃ x w', w = x :: w' := by
      cases w with
      | nil =>
        -- Something would be left that was not there before.
        have hlength := congrArg List.length hs'
        have hpos := List.length_pos_iff.2 hv
        simp only [List.nil_append, List.length_tail, List.length_append] at hlength
        omega
      | cons x w => exact ⟨x, w, rfl⟩
    obtain rfl : w = v := List.append_cancel_right hs'
    have hx : x.kind ≠ .eof := by
      intro hx
      exact hkind (by rw [State.kind, hs]; exact hx)
    refine ⟨[.leaf x], State.bump_eq hs hx, fun c t z' ht _ _ => ?_⟩
    have hmove : t.bump = t.past (w ++ z') [.leaf x] := State.bump_eq ht hx
    rw [← hmove]
    exact .bump

/-- A near scan passes the same tokens elsewhere. -/
theorem elsewhere_take {scan : Scan} (hscan : scan.Near) :
    Elsewhere grammar b (.take scan) s (s.advance (scan.run {} s.rest).1) := by
  intro w v z hs hs' hv _
  rw [State.rest_advance, hs] at hs'
  -- The scan passed what lies between `w` and `v`.
  obtain ⟨u, rfl, hu⟩ : ∃ u, w = u ++ v ∧ u.length = (scan.run {} (w ++ z)).1 := by
    generalize (scan.run {} (w ++ z)).1 = n at hs'
    have hsuffix : v ++ z <:+ w ++ z := hs' ▸ List.drop_suffix _ _
    obtain ⟨u, hu⟩ := hsuffix
    rw [← List.append_assoc] at hu
    obtain rfl := List.append_cancel_right hu
    refine ⟨u, rfl, ?_⟩
    have hlength := congrArg List.length hs'
    have hpos := List.length_pos_iff.2 hv
    simp only [List.length_drop, List.length_append] at hlength
    omega
  rw [List.append_assoc] at hu hs
  refine ⟨u.map .leaf, ?_, fun c t z' ht _ _ => ?_⟩
  · rw [hs, ← hu]
    exact State.advance_eq hs
  · rw [List.append_assoc] at ht
    rw [← State.advance_eq ht, ← hscan.run_eq hv hu.symm z', ← ht]
    exact .take

/-- A step that **runs as another one** does where the same token is in front. -/
theorem Elsewhere.mono {a' : Step} (h : Elsewhere grammar b a s s') (hsuffix : s'.rest <:+ s.rest)
    (hruns : ∀ c t t', t.kind = s.kind → Runs grammar c a t (.ok t') →
      Runs grammar c a' t (.ok t')) :
    Elsewhere grammar b a' s s' := by
  intro w v z hs hs' hv hframes
  obtain ⟨F, heq, hrun⟩ := h w v z hs hs' hv hframes
  refine ⟨F, heq, fun c t z' ht htframes hbound => ?_⟩
  exact hruns c t _ (kind_elsewhere hs hs' hsuffix hv ht) (hrun c t z' ht htframes hbound)

/-- A step that runs as **two others, one after the other**, do where the same token is in front and
the first of them consumes a token exactly if it did here. -/
theorem Elsewhere.andThen {a₁ a₂ : Step} {s₁ : State} (h₁ : Elsewhere grammar b a₁ s s₁)
    (h₂ : Elsewhere grammar b a₂ s₁ s') (hfirst : s₁.rest <:+ s.rest)
    (hsecond : s'.rest <:+ s₁.rest)
    (hruns : ∀ c t t₁ t', t.kind = s.kind →
      (t₁.rest.length < t.rest.length ↔ s₁.rest.length < s.rest.length) →
      Runs grammar c a₁ t (.ok t₁) → Runs grammar c a₂ t₁ (.ok t') → Runs grammar c a t (.ok t')) :
    Elsewhere grammar b a s s' := by
  intro w v z hs hs' hv hframes
  obtain ⟨u, x, y, hu, -, rfl⟩ := rest_between hs hs' hfirst hsecond
  have hne : y ++ v ≠ [] := by simp [hv]
  obtain ⟨F, hF, hrun₁⟩ := h₁ w _ z hs hu hne hframes
  have hframes₁ : s₁.frames ≠ [] := by
    rw [hF]
    exact Frame.grow_ne_nil hframes
  obtain ⟨G, hG, hrun₂⟩ := h₂ _ v z hu hs' hv hframes₁
  refine ⟨F ++ G, by rw [hG, hF, State.past_past], fun c t z' ht htframes hbound => ?_⟩
  refine hruns c t _ _ (kind_elsewhere hs hu hfirst hne ht) ?_ (hrun₁ c t z' ht htframes hbound) ?_
  · rw [hs, hu, ht]
    simp only [State.past, List.length_append]
    omega
  · rw [← State.past_past]
    exact hrun₂ c _ z' rfl (Frame.grow_ne_nil htframes) hbound

/-- A node is built elsewhere as it is here. -/
theorem Elsewhere.node {kind : NodeKind} (h : Elsewhere grammar b a (s.openNode kind) s') :
    Elsewhere grammar b (.node kind a) s s'.closeNode := by
  intro w v z hs hs' hv hframes
  rw [State.rest_closeNode] at hs'
  obtain ⟨F, heq, hrun⟩ := h w v z hs hs' hv (List.cons_ne_nil _ _)
  -- A node without children stands at the next token, and that is one of `v`.
  obtain ⟨x, v, rfl⟩ := List.exists_cons_of_ne_nil hv
  refine ⟨[Tree.ofChildren kind F x.start], ?_, fun c t z' ht htframes hbound => ?_⟩
  · rw [heq]
    exact State.closeNode_before hframes kind x (v ++ z) F
  · have hinside := hrun c (t.openNode kind) z' ht (List.cons_ne_nil _ _) hbound
    have hclose := State.closeNode_before htframes kind x (v ++ z') F
    exact hclose ▸ .node_ok hinside

/-- A rule is called elsewhere as it is here. -/
theorem Elsewhere.call {rule : Rule} (h : Elsewhere grammar s.rest.length (grammar rule) s s')
    (fewer : s.rest.length < b) : Elsewhere grammar b (.call rule) s s' := by
  intro w v z hs hs' hv hframes
  obtain ⟨F, heq, hrun⟩ := h w v z hs hs' hv hframes
  refine ⟨F, heq, fun c t z' ht htframes hbound => ?_⟩
  rw [hs, List.length_append] at fewer
  refine .call ?_ (hrun _ t z' ht htframes ?_)
  · rw [ht, List.length_append]
    omega
  · rw [ht, hs, List.length_append, List.length_append]
    omega

/-- Between the beginning and the end of two runs without errors no error is recorded either. -/
theorem Runs.errors_between {a' : Step} {b' : Nat} {s₁ : State} (h : Runs grammar b a s (.ok s₁))
    (h' : Runs grammar b' a' s₁ (.ok s')) (herrors : s'.errors = s.errors) :
    s₁.errors = s.errors ∧ s'.errors = s₁.errors := by
  have hle : s.errors <+: s₁.errors := h.errors_grow
  have hge : s₁.errors <+: s'.errors := h'.errors_grow
  rw [herrors] at hge
  have hmiddle : s₁.errors = s.errors :=
    (hle.eq_of_length (Nat.le_antisymm hle.length_le hge.length_le)).symm
  exact ⟨hmiddle, herrors.trans hmiddle.symm⟩

/-- **A near run without errors is found elsewhere.** The induction is on the run. -/
theorem Runs.elsewhere (hgrammar : (grammar .statement).Near) (h : Runs grammar b a s o) :
    ∀ s', o = .ok s' → a.Near → s'.errors = s.errors → Elsewhere grammar b a s s' := by
  induction h with
  | skip =>
    rintro _ ⟨rfl⟩ - -
    exact elsewhere_still fun _ _ _ => .skip
  | bump =>
    rintro _ ⟨rfl⟩ - -
    exact elsewhere_bump
  | take =>
    rintro _ ⟨rfl⟩ hnear -
    exact elsewhere_take hnear
  | report =>
    rintro _ ⟨rfl⟩ - herrors
    exact absurd herrors (by simp [State.report])
  | takeClosed_ok =>
    rintro _ ⟨rfl⟩ hnear
    exact hnear.elim
  | enter =>
    rintro _ ⟨rfl⟩ hnear
    exact hnear.elim
  | noteBodiless =>
    rintro _ ⟨rfl⟩ hnear
    exact hnear.elim
  | noteClosed =>
    rintro _ ⟨rfl⟩ hnear
    exact hnear.elim
  | seq_ok first second ih₁ ih₂ =>
    rintro s' rfl hnear herrors
    obtain ⟨herrors₁, herrors₂⟩ := first.errors_between second herrors
    refine (ih₁ _ rfl hnear.1 herrors₁).andThen (ih₂ _ rfl hnear.2 herrors₂) first.rest_suffix
      second.rest_suffix ?_
    exact fun _ _ _ _ _ _ hrun₁ hrun₂ => .seq_ok hrun₁ hrun₂
  | branch_yes holds run ih =>
    rintro s' rfl hnear herrors
    refine (ih s' rfl hnear.2.1 herrors).mono run.rest_suffix fun c t t' hkind hrun =>
      .branch_yes ?_ hrun
    rwa [Test.holds_near hnear.1 hkind]
  | branch_no holds run ih =>
    rintro s' rfl hnear herrors
    refine (ih s' rfl hnear.2.2 herrors).mono run.rest_suffix fun c t t' hkind hrun =>
      .branch_no ?_ hrun
    rwa [Test.holds_near hnear.1 hkind]
  | loop_done holds =>
    rintro _ ⟨rfl⟩ hnear -
    refine elsewhere_still fun c t hkind => .loop_done ?_
    rwa [Test.holds_near hnear.1 hkind]
  | loop_round holds round consumed again ih₁ ih₂ =>
    rintro s' rfl hnear herrors
    obtain ⟨herrors₁, herrors₂⟩ := round.errors_between again herrors
    refine (ih₁ _ rfl hnear.2 herrors₁).andThen (ih₂ _ rfl hnear herrors₂) round.rest_suffix
      again.rest_suffix ?_
    intro c t t₁ t' hkind hmoved hrun₁ hrun₂
    refine .loop_round ?_ hrun₁ (hmoved.2 consumed) hrun₂
    rwa [Test.holds_near hnear.1 hkind]
  | ifMoved_moved first consumed second ih₁ ih₂ =>
    rintro s' rfl hnear herrors
    obtain ⟨herrors₁, herrors₂⟩ := first.errors_between second herrors
    refine (ih₁ _ rfl hnear.1 herrors₁).andThen (ih₂ _ rfl hnear.2.1 herrors₂) first.rest_suffix
      second.rest_suffix ?_
    exact fun _ _ _ _ _ hmoved hrun₁ hrun₂ => .ifMoved_moved hrun₁ (hmoved.2 consumed) hrun₂
  | ifMoved_still first consumed second ih₁ ih₂ =>
    rintro s' rfl hnear herrors
    obtain ⟨herrors₁, herrors₂⟩ := first.errors_between second herrors
    refine (ih₁ _ rfl hnear.1 herrors₁).andThen (ih₂ _ rfl hnear.2.2 herrors₂) first.rest_suffix
      second.rest_suffix ?_
    exact fun _ _ _ _ _ hmoved hrun₁ hrun₂ => .ifMoved_still hrun₁ (mt hmoved.1 consumed) hrun₂
  | node_ok inside ih =>
    rintro _ ⟨rfl⟩ hnear herrors
    rw [State.errors_closeNode] at herrors
    exact (ih _ rfl hnear herrors).node
  | guarded_ok inside ih =>
    rintro s' ⟨rfl⟩ hnear herrors
    exact (ih _ rfl hnear herrors).mono inside.rest_suffix fun _ _ _ _ hrun => .guarded_ok hrun
  | guarded_fail inside =>
    rintro _ ⟨rfl⟩ - herrors
    -- A recovery leaves one error more.
    rw [State.errors_recover] at herrors
    have hgrow := inside.errors_grow.length_le
    have hlength := congrArg List.length herrors
    simp only [Outcome.state, List.length_append, List.length_singleton] at hgrow hlength
    omega
  | call fewer body ih =>
    rintro s' rfl hrule herrors
    obtain rfl : _ = Rule.statement := hrule
    exact (ih s' rfl hgrammar herrors).call fewer
  | _ => rintro _ ⟨⟩

end Step

end PascalAtlas
