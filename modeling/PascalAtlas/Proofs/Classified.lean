import PascalAtlas.Lowering
import PascalAtlas.Proofs.Inferred

/-!
# Which document a routine goes into

A routine comes into the backend or into the user interface by what the rules find in its body, and
by nothing else: not by its name, nor by what else is in the batch. The two tests
(`Routine.servesBackend` and `Routine.servesUi`) are stated here on the source alone, and the two
documents are shown to be the declarations of the batch filtered by them, one entry for each and in
their order (`LoweringOptions.documents_classified`). So the order of the rules shows in one place
only, which is the order of the actions of a backend procedure.
-/

namespace PascalAtlas

namespace Routine

/-- Whether a routine **belongs to the user interface**: some rule finds that in its body. -/
def servesUi (rules : List EffectRule) (r : Routine) : Bool :=
  r.hasBody && (EffectRule.found rules r.body).contains .markUi

/-- Whether a routine **belongs to the backend**: some rule finds in its body that a resource is
written, and none that it belongs to the user interface. -/
def servesBackend (rules : List EffectRule) (r : Routine) : Bool :=
  r.hasBody && !(EffectRule.found rules r.body).contains .markUi
    && (EffectRule.found rules r.body).any fun effect => effect.resource?.isSome

/-- The resources that the rules find written in the body, **each once** and in the
order of the rules. -/
def written (rules : List EffectRule) (r : Routine) : List Text :=
  ((EffectRule.found rules r.body).filterMap Effect.resource?).eraseDups

/-- No routine serves both. -/
theorem not_serves_both (rules : List EffectRule) (r : Routine) :
    ¬ (r.servesBackend rules = true ∧ r.servesUi rules = true) := by
  rintro ⟨hbackend, hui⟩
  rw [servesUi, Bool.and_eq_true] at hui
  rw [servesBackend, hui.2, Bool.not_true, Bool.and_false, Bool.false_and] at hbackend
  cases hbackend

/-- A routine without a body serves neither. -/
theorem serves_neither {r : Routine} (h : r.hasBody = false) (rules : List EffectRule) :
    r.servesBackend rules = false ∧ r.servesUi rules = false := by
  rw [servesBackend, servesUi, h]
  exact ⟨rfl, rfl⟩

end Routine

/-! ## Effects that the rules find -/

namespace Procedure

variable (rules : List EffectRule) (classes known : List Text) {p : Procedure}

/-- What a routine writes is what the rules find in its body, each once. -/
theorem writes_infer (h : p.hasBody = true) :
    (p.infer rules classes known).writes
      = ((EffectRule.found rules p.body).filterMap Effect.resource?).eraseDups := by
  rw [infer, if_pos h]
  show (Effects.applyRules rules p.body {}).writes = _
  rw [Effects.applyRules_eq, Effects.foldl_add]
  exact OrderedSet.ofList_eq _

/-- A routine belongs to the user interface if it has a body in which **some** rule finds that. -/
theorem isUi_infer : (p.infer rules classes known).isUi
    = (p.hasBody && (EffectRule.found rules p.body).contains .markUi) := by
  rw [infer]
  split
  next h =>
    show (Effects.applyRules rules p.body {}).isUi = _
    rw [Effects.applyRules_eq, Effects.foldl_add, h]
    rfl
  next h =>
    rw [Bool.eq_false_iff.2 h]
    rfl

/-- Something is written if **some** rule finds that. -/
theorem isEmpty_writes_infer : (p.infer rules classes known).writes.isEmpty
    = !(p.hasBody && (EffectRule.found rules p.body).any
        fun effect => effect.resource?.isSome) := by
  cases h : p.hasBody with
  | false =>
    rw [infer, h]
    rfl
  | true =>
    rw [writes_infer rules classes known h, Bool.true_and]
    generalize EffectRule.found rules p.body = found
    induction found with
    | nil => rfl
    | cons effect found ih =>
      cases effect with
      | write resource =>
        show (resource :: found.filterMap Effect.resource?).eraseDups.isEmpty = false
        rw [List.eraseDups_cons]
        rfl
      | create className => exact ih
      | markUi => exact ih

end Procedure

namespace Analysis

variable (a : Analysis) (d : Declaration)

/-- After the analysis the mark says what the test on the source says. -/
theorem isUi_procedureFor : (a.procedureFor d).effects.isUi = d.routine.servesUi a.rules :=
  Procedure.isUi_infer ..

/-- And so does what selects the routines of the backend. -/
theorem servesBackend_procedureFor :
    (!(a.procedureFor d).effects.isUi && !(a.procedureFor d).effects.writes.isEmpty)
      = d.routine.servesBackend a.rules := by
  have hwrites : (a.procedureFor d).effects.writes.isEmpty = !(d.routine.hasBody
      && (EffectRule.found a.rules d.routine.body).any fun effect => effect.resource?.isSome) :=
    Procedure.isEmpty_writes_infer ..
  rw [isUi_procedureFor, hwrites, Routine.servesUi, Routine.servesBackend]
  cases d.routine.hasBody <;> simp

end Analysis

/-! ## The documents -/

namespace LoweringOptions

open Analysis (loaded)

/-- The procedure of the backend that a declaration becomes where its types are
**resolved in a registry**. -/
def backendFor (o : LoweringOptions) (rules : List EffectRule) (registry : Registry)
    (d : Declaration) :
    BackendProcedure where
  name := d.routine.name
  params := (Procedure.ofRoutine registry d.unit d.owner d.routine).parameters.entries.map fun p =>
    ⟨p.1, p.2.typeName⟩
  actions := (d.routine.written rules).flatMap fun resource => (o.actions.get? resource).getD []

variable (rules : List EffectRule) (o : LoweringOptions) (us : List SourceUnit)

theorem backendProcedure_procedureFor {d : Declaration} (h : d.routine.servesBackend rules = true) :
    o.backendProcedure ((loaded rules us).analyze.procedureFor d)
      = o.backendFor rules (.ofUnits us) d := by
  have hbody : d.routine.hasBody = true := by
    rw [Routine.servesBackend, Bool.and_assoc, Bool.and_eq_true] at h
    exact h.1
  have hwrites : ((loaded rules us).analyze.procedureFor d).effects.writes
      = d.routine.written rules := by
    rw [Analysis.procedureFor, Analysis.rules_analyze]
    exact Procedure.writes_infer rules _ _ hbody
  rw [backendProcedure, hwrites, Analysis.procedureFor, Analysis.registry_analyze]
  rfl

/-- The **backend** is made of the declarations that belong to it. -/
theorem backend_analyze :
    (o.backend (loaded rules us).analyze).procedures
      = ((declarations us).filter fun d => d.routine.servesBackend rules).map
        (o.backendFor rules (.ofUnits us)) := by
  rw [backend, Analysis.procedures_analyze, List.filter_map, List.map_map]
  have htest : ((fun p : Procedure => !p.effects.isUi && !p.effects.writes.isEmpty)
      ∘ (loaded rules us).analyze.procedureFor) = fun d => d.routine.servesBackend rules := by
    funext d
    rw [Function.comp_apply, Analysis.servesBackend_procedureFor, Analysis.rules_analyze]
  rw [htest]
  refine List.map_congr_left fun d hd => ?_
  exact backendProcedure_procedureFor rules o us (List.mem_filter.1 hd).2

/-- The **user interface** is made of the declarations that belong to it. -/
theorem ui_analyze :
    (o.ui (loaded rules us).analyze).actions
      = ((declarations us).filter fun d => d.routine.servesUi rules).map fun d =>
          o.uiAction (loaded rules us).analyze ((loaded rules us).analyze.procedureFor d) := by
  rw [ui, Analysis.procedures_analyze, List.filter_map, List.map_map]
  have htest : ((fun p : Procedure => p.effects.isUi) ∘ (loaded rules us).analyze.procedureFor)
      = fun d => d.routine.servesUi rules := by
    funext d
    rw [Function.comp_apply, Analysis.isUi_procedureFor, Analysis.rules_analyze]
  rw [htest]
  rfl

/-- **Each routine goes where the rules find that it belongs.** The backend has one procedure for
each declaration that belongs to it, in the order of the units and of the routines in them, with the
actions for the resources that are written in the order of the rules; the user interface has one
action for each declaration that belongs to it, in the same order. No routine belongs to both, and
one without a body to neither. -/
theorem documents_classified (rules : List EffectRule) (o : LoweringOptions)
    (us : List SourceUnit) :
    let a := (loaded rules us).analyze
    ((o.documents a).backend.procedures
        = ((declarations us).filter fun d => d.routine.servesBackend rules).map fun d =>
          { name := d.routine.name
            params := (a.procedureFor d).parameters.entries.map fun p => ⟨p.1, p.2.typeName⟩
            actions := (d.routine.written rules).flatMap fun resource =>
              (o.actions.get? resource).getD [] })
      ∧ ((o.documents a).ui.actions
        = ((declarations us).filter fun d => d.routine.servesUi rules).map fun d =>
          o.uiAction a (a.procedureFor d))
      ∧ ∀ r : Routine, ¬ (r.servesBackend rules = true ∧ r.servesUi rules = true)
        ∧ (r.hasBody = false → r.servesBackend rules = false ∧ r.servesUi rules = false) := by
  refine ⟨?_, ui_analyze rules o us,
    fun r => ⟨r.not_serves_both rules, fun h => r.serves_neither h rules⟩⟩
  show (o.backend (loaded rules us).analyze).procedures = _
  rw [backend_analyze]
  refine List.map_congr_left fun d _ => ?_
  rw [Analysis.procedureFor, Analysis.registry_analyze]
  rfl

end LoweringOptions

end PascalAtlas
