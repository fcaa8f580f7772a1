import Mathlib.Data.List.Induction
import PascalAtlas.Batch

/-!
# Every file of a batch is accounted for

A file of a batch has one of three **fates**: its unit is kept, or the file fails, or its unit has
the name of one that is kept already. What the fates of some files are is said here without going
through them: no two units that are kept have the same name, and each one that is not kept has the
name of a unit that is kept before it (`Fate.Right`).

Right fates exist for all results (`Fate.exists_right`), and the tally of a batch reads off them
(`Fate.tally_eq`). So the counts add up. Files that are not kept may be left out, one or more: the
other fates are still right, and so nothing else changes.
-/

namespace PascalAtlas

/-- Whether two units have the **same name**, ignoring ASCII case. -/
def BatchUnit.sameName (u v : BatchUnit) : Bool :=
  Text.eqIgnoreCase u.built.unit.name v.built.unit.name

/-- What can become of a file. -/
inductive Fate where
  | kept (u : BatchUnit)
  | failed (failure : UnitFailure)
  /-- Its unit is dropped because another one with the same name came first. -/
  | repeated (u first : BatchUnit)

namespace Fate

/-- The result of a file with this fate. -/
def result : Fate → Except UnitFailure BatchUnit
  | kept u | repeated u _ => .ok u
  | failed failure => .error failure

/-- The unit that is kept. -/
def kept? : Fate → Option BatchUnit
  | kept u => some u
  | _ => none

/-- The failure. -/
def failure? : Fate → Option UnitFailure
  | failed failure => some failure
  | _ => none

/-- What is said about a unit that is dropped: its name, where it is, and where the
one is that was kept. -/
def diagnostic? : Fate → Option BatchDiagnostic
  | repeated u first => some (.duplicateUnit u.built.unit.name u.path first.path)
  | _ => none

/-- Fates in the order of the files are **right** if no two units that are kept have the same name,
and each one that is dropped has the name of the unit beside it, which is kept before it. -/
structure Right (fates : List Fate) : Prop where
  distinct : (fates.filterMap kept?).Pairwise fun u v => u.sameName v = false
  repeats : ∀ before u first after, fates = before ++ repeated u first :: after →
    first ∈ before.filterMap kept? ∧ first.sameName u = true

/-! ## Right fates exist -/

theorem right_nil : Right [] where
  distinct := .nil
  repeats := by
    intro before u first after h
    cases before <;> cases h

/-- What one more file may become. -/
def Follows (fates : List Fate) : Fate → Prop
  | kept u => ∀ v ∈ fates.filterMap kept?, v.sameName u = false
  | failed _ => True
  | repeated u first => first ∈ fates.filterMap kept? ∧ first.sameName u = true

theorem right_concat {fates : List Fate} {fate : Fate} :
    Right (fates ++ [fate]) ↔ Right fates ∧ Follows fates fate := by
  constructor
  · intro h
    have hdistinct := h.distinct
    rw [List.filterMap_append, List.pairwise_append] at hdistinct
    refine ⟨⟨hdistinct.1, fun before u first after hsplit => ?_⟩, ?_⟩
    · refine h.repeats before u first (after ++ [fate]) ?_
      rw [hsplit, List.append_assoc, List.cons_append]
    · cases fate with
      | kept u => exact fun v hv => hdistinct.2.2 v hv u (List.mem_singleton.2 rfl)
      | failed failure => trivial
      | repeated u first => exact h.repeats fates u first [] rfl
  · rintro ⟨h, hfate⟩
    refine ⟨?_, fun before u first after hsplit => ?_⟩
    · rw [List.filterMap_append, List.pairwise_append]
      cases fate with
      | kept u =>
        refine ⟨h.distinct, List.pairwise_singleton .., fun v hv w hw => ?_⟩
        obtain rfl : w = u := List.mem_singleton.1 hw
        exact hfate v hv
      | failed failure => exact ⟨h.distinct, .nil, fun v _ w hw => by cases hw⟩
      | repeated u first => exact ⟨h.distinct, .nil, fun v _ w hw => by cases hw⟩
    · -- The unit that is dropped is the last one, or comes before.
      rcases List.eq_nil_or_concat after with rfl | ⟨rest, last, rfl⟩
      · obtain ⟨rfl, hlast⟩ := List.append_inj' hsplit rfl
        obtain rfl := List.singleton_inj.1 hlast
        exact hfate
      · rw [List.concat_eq_append, ← List.cons_append, ← List.append_assoc] at hsplit
        exact h.repeats before u first rest (List.append_inj' hsplit rfl).1

/-- Whatever the results of the files are, there are **right fates** for them. -/
theorem exists_right (results : List (Except UnitFailure BatchUnit)) :
    ∃ fates : List Fate, fates.map result = results ∧ Right fates := by
  induction results using List.reverseRecOn with
  | nil => exact ⟨[], rfl, right_nil⟩
  | append_singleton results r ih =>
    obtain ⟨fates, rfl, hfates⟩ := ih
    have hnext : ∃ fate, fate.result = r ∧ Follows fates fate := by
      cases r with
      | error failure => exact ⟨failed failure, rfl, trivial⟩
      | ok u =>
        -- Any unit that was kept under this name will do; there is but one, which
        -- is not needed here.
        cases hfirst : (fates.filterMap kept?).find? fun v => v.sameName u with
        | none =>
          refine ⟨kept u, rfl, fun v hv => ?_⟩
          exact Bool.eq_false_iff.2 (List.find?_eq_none.1 hfirst v hv)
        | some first =>
          have hsame : first.sameName u = true :=
            List.find?_some (p := fun v : BatchUnit => v.sameName u) hfirst
          exact ⟨repeated u first, rfl, List.mem_of_find?_eq_some hfirst, hsame⟩
    obtain ⟨fate, rfl, hfate⟩ := hnext
    exact ⟨fates ++ [fate], by rw [List.map_append, List.map_singleton],
      right_concat.2 ⟨hfates, hfate⟩⟩

end Fate

/-! ## The tally -/

/-- Among units with different names, the one that is found under a name is the
**only** one that has it. -/
theorem Tally.holder?_eq_some {units : List BatchUnit}
    (hdistinct : units.Pairwise fun u v => u.sameName v = false) {first u : BatchUnit}
    (hfirst : first ∈ units) (hsame : first.sameName u = true) :
    holder? units u.built.unit.name = some first := by
  obtain ⟨before, after, rfl⟩ := List.append_of_mem hfirst
  refine List.find?_eq_some_iff_append.2 ⟨hsame, before, after, rfl, fun v hv => ?_⟩
  have hother : v.sameName first = false :=
    (List.pairwise_append.1 hdistinct).2.2 v hv first (List.mem_cons_self ..)
  rw [Bool.not_eq_true', Bool.eq_false_iff]
  -- An earlier unit with this name would have the name of `first`, because names are
  -- compared in small letters.
  intro hname
  rw [BatchUnit.sameName, Text.eqIgnoreCase, beq_eq_false_iff_ne] at hother
  exact hother ((beq_iff_eq.1 hname).trans (beq_iff_eq.1 hsame).symm)

namespace Fate

/-- The **tally** reads off right fates. -/
theorem tally_eq {fates : List Fate} (h : Right fates) :
    Tally.ofResults (fates.map result)
      = ⟨fates.filterMap kept?, fates.filterMap failure?, fates.filterMap diagnostic?⟩ := by
  -- The induction is from the last file back, because a fate depends on those before it.
  induction fates using List.reverseRecOn with
  | nil => rfl
  | append_singleton fates fate ih =>
    obtain ⟨hbefore, hfate⟩ := right_concat.1 h
    have hstep : Tally.ofResults ((fates ++ [fate]).map result)
        = (Tally.ofResults (fates.map result)).add fate.result := by
      rw [List.map_append, Tally.ofResults, List.foldl_append]
      rfl
    rw [hstep, ih hbefore, List.filterMap_append, List.filterMap_append, List.filterMap_append]
    cases fate with
    | kept u =>
      have hholder : Tally.holder? (fates.filterMap kept?) u.built.unit.name = none :=
        List.find?_eq_none.2 fun v hv => Bool.eq_false_iff.1 (hfate v hv)
      simp [Tally.add, result, kept?, failure?, diagnostic?, hholder]
    | failed failure => simp [Tally.add, result, kept?, failure?, diagnostic?]
    | repeated u first =>
      have hholder := Tally.holder?_eq_some hbefore.distinct hfate.1 hfate.2
      simp [Tally.add, result, kept?, failure?, diagnostic?, hholder]

/-- Each file has **one** of the three fates. -/
theorem length_eq (fates : List Fate) :
    fates.length = (fates.filterMap kept?).length + (fates.filterMap failure?).length
      + (fates.filterMap diagnostic?).length := by
  induction fates with
  | nil => rfl
  | cons fate fates ih =>
    cases fate <;> simp only [List.filterMap_cons, kept?, failure?, diagnostic?,
      List.length_cons, ih] <;> omega

/-! ## Leaving files out -/

/-- Fates that are left are **still right**, if all units that were kept are left. -/
theorem Right.of_sublist {fates rest : List Fate} (h : Right fates) (hrest : rest.Sublist fates)
    (hkept : rest.filterMap kept? = fates.filterMap kept?) : Right rest where
  distinct := hkept ▸ h.distinct
  repeats := by
    rintro before u first after rfl
    obtain ⟨front, back, rfl, hfront, hback⟩ := List.append_sublist_iff.1 hrest
    obtain ⟨middle, back, rfl, hmem, hafter⟩ := List.cons_sublist_iff.1 hback
    obtain ⟨left, right, rfl⟩ := List.append_of_mem hmem
    have hfirst := h.repeats (front ++ left) u first (right ++ back) (by simp)
    refine ⟨?_, hfirst.2⟩
    -- No unit that was kept before this one has been left out, because none has
    -- been left out at all.
    have hbefore : (before.filterMap kept?).Sublist ((front ++ left).filterMap kept?) :=
      (hfront.trans (List.sublist_append_left _ _)).filterMap _
    have hbehind : (after.filterMap kept?).Sublist ((right ++ back).filterMap kept?) :=
      (hafter.trans (List.sublist_append_right _ _)).filterMap _
    have hlength := congrArg List.length hkept
    have hle := hbehind.length_le
    simp only [List.filterMap_append, List.filterMap_cons, kept?, List.length_append] at hlength hle
    have hsame : before.filterMap kept? = (front ++ left).filterMap kept? := by
      refine hbefore.eq_of_length_le ?_
      simp only [List.filterMap_append, List.length_append]
      omega
    exact hsame ▸ hfirst.1

end Fate

/-! ## The outcome -/

/-- Whether a diagnostic is about a unit that was dropped. -/
def BatchDiagnostic.isDuplicate : BatchDiagnostic → Bool
  | .duplicateUnit .. => true
  | _ => false

theorem Fate.isDuplicate_of_mem {fates : List Fate} {d : BatchDiagnostic}
    (h : d ∈ fates.filterMap diagnostic?) :
    d.isDuplicate = true := by
  obtain ⟨fate, -, hfate⟩ := List.mem_filterMap.1 h
  cases fate with
  | kept u => cases hfate
  | failed failure => cases hfate
  | repeated u first =>
    obtain rfl := Option.some.inj hfate
    rfl

/-- What is wrong with the inputs is **not** about units. -/
theorem isDuplicate_expandInputs {c : Config} {fs : FileSystem} {inputs : List FilePath}
    {d : BatchDiagnostic} (h : d ∈ (expandInputs c fs inputs).2) : d.isDuplicate = false := by
  rw [expandInputs] at h
  split at h
  next =>
    obtain rfl := List.mem_singleton.1 h
    rfl
  next =>
    rcases List.mem_append.1 h with hmissing | hnone
    · obtain ⟨found, -, hfound⟩ := List.mem_filterMap.1 hmissing
      simp only at hfound
      split at hfound
      next =>
        obtain rfl := Option.some.inj hfound
        rfl
      next => cases hfound
    · split at hnone
      next =>
        obtain rfl := List.mem_singleton.1 hnone
        rfl
      next => cases hnone

namespace BatchOutcome

variable (c : Config) (fs : FileSystem) (inputs : List FilePath)

/-- The diagnostics **about units** are those of the units that were dropped. -/
theorem filter_isDuplicate {fates : List Fate} (h : Fate.Right fates) :
    (ofResults c (expandInputs c fs inputs).2 (fates.map Fate.result)).diagnostics.filter
      BatchDiagnostic.isDuplicate
      = fates.filterMap Fate.diagnostic? := by
  show ((expandInputs c fs inputs).2
    ++ (Tally.ofResults (fates.map Fate.result)).duplicates).filter _ = _
  have hinputs : (expandInputs c fs inputs).2.filter BatchDiagnostic.isDuplicate = [] := by
    refine List.filter_eq_nil_iff.2 fun d hd => ?_
    rw [isDuplicate_expandInputs hd]
    exact Bool.false_ne_true
  have hdropped : (fates.filterMap Fate.diagnostic?).filter BatchDiagnostic.isDuplicate
      = fates.filterMap Fate.diagnostic? :=
    List.filter_eq_self.2 fun d hd => Fate.isDuplicate_of_mem hd
  rw [Fate.tally_eq h, List.filter_append, hinputs, hdropped, List.nil_append]

/-- The **counts** add up. -/
theorem length_results (results : List (Except UnitFailure BatchUnit)) :
    let o := ofResults c (expandInputs c fs inputs).2 results
    results.length = o.units.length + o.failures.length
      + (o.diagnostics.filter BatchDiagnostic.isDuplicate).length := by
  obtain ⟨fates, rfl, hfates⟩ := Fate.exists_right results
  intro o
  have hunits : o.units = fates.filterMap Fate.kept? := congrArg Tally.units (Fate.tally_eq hfates)
  have hfailures : o.failures = fates.filterMap Fate.failure? :=
    congrArg Tally.failures (Fate.tally_eq hfates)
  rw [filter_isDuplicate c fs inputs hfates, hunits, hfailures, List.length_map]
  exact Fate.length_eq fates

/-- The outcome depends on the **units that are kept**, but for what is said
about the other files. -/
theorem ofResults_congr {results results' : List (Except UnitFailure BatchUnit)}
    (diagnostics : List BatchDiagnostic)
    (h : (Tally.ofResults results).units = (Tally.ofResults results').units) :
    let o := ofResults c diagnostics results
    let o' := ofResults c diagnostics results'
    o.units = o'.units ∧ o.analysis = o'.analysis ∧ o.documents = o'.documents := by
  have hanalysis : analyzed c.rules (Tally.ofResults results).units
      = analyzed c.rules (Tally.ofResults results').units :=
    congrArg _ h
  exact ⟨h, hanalysis, congrArg c.lowering.documents hanalysis⟩

/-- **Every file is accounted for, and a file that is not kept leaves no trace.** Whatever the
results of the files are, each file has a fate. The units of the outcome are those that are kept,
that is, those that do not have the name of an earlier one that is kept; each failure is recorded
once; and for each unit that is dropped there is one diagnostic, which names it and tells where the
unit is whose name it has. So the counts add up to the number of files, for the results of a run
too. When any of the other files are left out and all that are kept remain, the units, the analysis
and the documents stay as they are. The batch fails exactly if no unit is kept. -/
theorem ofResults_accounted (c : Config) (fs : FileSystem) (inputs : List FilePath)
    (results : List (Except UnitFailure BatchUnit)) :
    let diagnostics := (expandInputs c fs inputs).2
    let o := ofResults c diagnostics results
    (∃ fates : List Fate, fates.map Fate.result = results ∧ Fate.Right fates
      ∧ o.units = fates.filterMap Fate.kept?
      ∧ o.failures = fates.filterMap Fate.failure?
      ∧ o.diagnostics = diagnostics ++ fates.filterMap Fate.diagnostic?
      ∧ o.diagnostics.filter BatchDiagnostic.isDuplicate = fates.filterMap Fate.diagnostic?
      ∧ (∀ rest : List Fate, rest.Sublist fates →
        rest.filterMap Fate.kept? = fates.filterMap Fate.kept? →
        let o' := ofResults c diagnostics (rest.map Fate.result)
        o'.units = o.units ∧ o'.analysis = o.analysis ∧ o'.documents = o.documents)
      ∧ (o.isOk = false ↔ ∀ fate ∈ fates, fate.kept? = none))
    ∧ results.length = o.units.length + o.failures.length
        + (o.diagnostics.filter BatchDiagnostic.isDuplicate).length
    ∧ ∀ frontEnd : FrontEnd,
        let run := c.run frontEnd fs inputs
        (expandInputs c fs inputs).1.length = run.units.length + run.failures.length
          + (run.diagnostics.filter BatchDiagnostic.isDuplicate).length := by
  intro diagnostics o
  refine ⟨?_, length_results c fs inputs results, fun frontEnd => ?_⟩
  · obtain ⟨fates, rfl, hfates⟩ := Fate.exists_right results
    have htally := Fate.tally_eq hfates
    have hunits : o.units = fates.filterMap Fate.kept? := congrArg Tally.units htally
    refine ⟨fates, rfl, hfates, hunits, congrArg Tally.failures htally, ?_,
      filter_isDuplicate c fs inputs hfates, fun rest hrest hkept => ?_, ?_⟩
    · exact congrArg (diagnostics ++ ·) (congrArg Tally.duplicates htally)
    · refine ofResults_congr c diagnostics ?_
      rw [Fate.tally_eq (hfates.of_sublist hrest hkept), htally]
      exact hkept
    · rw [isOk, hunits, Bool.not_eq_false', List.isEmpty_iff, List.filterMap_eq_nil_iff]
  · have hlength := length_results c fs inputs
      ((expandInputs c fs inputs).1.map (buildFile frontEnd c.strategy fs))
    rw [List.length_map] at hlength
    exact hlength

end BatchOutcome

end PascalAtlas
