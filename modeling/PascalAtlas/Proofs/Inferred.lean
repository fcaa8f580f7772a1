import PascalAtlas.Proofs.Registered

/-!
# What an analysis depends on

A batch is analyzed by steps that may be called in any order and any number of times, and each of
them reads what others have left: routines are collected against whatever registry there is, and
effects are inferred for whatever routines there are. Only loading changes what the full analysis
reads, which is the rules and the units; everything else it replaces. So a history of calls comes
down to the units that it has loaded (`Analysis.analyze_run`).

The second part says what the full analysis finds: the registry of the units, and for each
**declaration** one routine with its effects (`Analysis.procedures_analyze`). The names of the
classes and the routines of the batch enter into the effects of a routine in two places only, and
both select among these names and add what they select to a set. So whatever way there is to compare
two batches by their names, the effects of a routine compare in the same way
(`Analysis.alike_procedureFor`).
-/

namespace PascalAtlas

/-! ## What the rules find -/

/-- The resource that an effect writes to. -/
def Effect.resource? : Effect → Option Text
  | .write resource => some resource
  | _ => none

/-- The class that an effect makes an object of. -/
def Effect.className? : Effect → Option Text
  | .create className => some className
  | _ => none

/-- The effects that some rules **find** in a body, in the order of the rules. -/
def EffectRule.found (rules : List EffectRule) (body : Text) : List Effect :=
  (rules.filter fun rule => rule.trigger.holds body).map EffectRule.effect

namespace Effects

/-- Applying the rules adds the effects that they find, in their order. -/
theorem applyRules_eq (rules : List EffectRule) (body : Text) (e : Effects) :
    applyRules rules body e = (EffectRule.found rules body).foldl add e := by
  rw [EffectRule.found, List.foldl_map, List.foldl_filter]
  rfl

/-- Effects are added **kind by kind**: none of them touches what another has left. -/
theorem foldl_add (found : List Effect) (e : Effects) :
    found.foldl add e = { e with
      writes := OrderedSet.insertAll e.writes (found.filterMap Effect.resource?)
      creates := OrderedSet.insertAll e.creates (found.filterMap Effect.className?)
      isUi := e.isUi || found.contains .markUi } := by
  induction found generalizing e with
  | nil => simp [OrderedSet.insertAll]
  | cons effect found ih =>
    rw [List.foldl_cons, ih]
    cases effect with
    | write resource => rfl
    | create className => rfl
    | markUi =>
      have hui : (e.isUi || (Effect.markUi :: found).contains .markUi) = true := by simp
      rw [hui]
      rfl

/-- Effects that differ only in **how the names of the batch** enter into them. -/
structure Alike (R : List Text → List Text → Prop) (e e' : Effects) : Prop where
  reads : e'.reads = e.reads
  writes : e'.writes = e.writes
  isUi : e'.isUi = e.isUi
  creates : R e.creates e'.creates
  calls : R e.calls e'.calls

end Effects

namespace Procedure

variable {R : List Text → List Text → Prop} {classes classes' known known' : List Text}

/-- Names that compare give **effects that compare**. -/
theorem alike_infer (hR : OrderedSet.Keeps R) (hclasses : R classes classes')
    (hknown : R known known') (rules : List EffectRule) {p p' : Procedure}
    (hname : p'.name = p.name) (hhas : p'.hasBody = p.hasBody) (hbody : p'.body = p.body)
    (hkeys : p'.parameters.keys = p.parameters.keys) :
    (p.infer rules classes known).Alike R (p'.infer rules classes' known') := by
  rw [infer, infer, hname, hhas, hbody, hkeys]
  -- Classes and routines are selected from the names of the batch; all else is the
  -- same on both sides.
  split
  next => exact ⟨rfl, rfl, rfl, hR _ _ hclasses, hR _ _ hknown⟩
  next => exact ⟨rfl, rfl, rfl, hR.nil hclasses, hR.nil hknown⟩

end Procedure

namespace Analysis

/-! ## Histories -/

/-- A call on a batch under analysis. -/
inductive Call where
  | load (unit : SourceUnit)
  | collectTypes
  | collectProcedures
  | inferEffects
  | analyze

/-- What one call does. -/
def step (a : Analysis) : Call → Analysis
  | .load unit => a.load unit
  | .collectTypes => a.collectTypes
  | .collectProcedures => a.collectProcedures
  | .inferEffects => a.inferEffects
  | .analyze => a.analyze

/-- What some calls do, one after the other. -/
def run (a : Analysis) (calls : List Call) : Analysis :=
  calls.foldl step a

/-- The unit that a call loads. -/
def Call.unit? : Call → Option SourceUnit
  | .load unit => some unit
  | _ => none

/-- The units that some calls load, in order. -/
def loads (calls : List Call) : List SourceUnit :=
  calls.filterMap Call.unit?

/-- A batch with some units loaded, and nothing found out about them yet. -/
def loaded (rules : List EffectRule) (us : List SourceUnit) : Analysis :=
  us.foldl load { rules }

theorem foldl_load (us : List SourceUnit) (a : Analysis) :
    us.foldl load a = { a with units := a.units ++ us } := by
  induction us generalizing a with
  | nil => rw [List.append_nil]; rfl
  | cons u us ih =>
    rw [List.foldl_cons, ih, load, List.append_assoc]
    rfl

/-- Loading does nothing but add the units. -/
theorem loaded_eq (rules : List EffectRule) (us : List SourceUnit) :
    loaded rules us = { rules, units := us } :=
  foldl_load us { rules }

/-- One call keeps the rules. -/
theorem rules_step (a : Analysis) (call : Call) : (a.step call).rules = a.rules := by
  cases call <;> rfl

/-- One call keeps the units but for the one that it loads. -/
theorem units_step (a : Analysis) (call : Call) :
    (a.step call).units = a.units ++ call.unit?.toList := by
  cases call with
  | load unit => rfl
  | collectTypes => exact (List.append_nil _).symm
  | collectProcedures => exact (List.append_nil _).symm
  | inferEffects => exact (List.append_nil _).symm
  | analyze => exact (List.append_nil _).symm

/-- No call changes the rules. -/
theorem rules_run (a : Analysis) (calls : List Call) : (a.run calls).rules = a.rules := by
  induction calls generalizing a with
  | nil => rfl
  | cons call calls ih => exact (ih _).trans (rules_step a call)

/-- Calls add the units that they load, and no others. -/
theorem units_run (a : Analysis) (calls : List Call) :
    (a.run calls).units = a.units ++ loads calls := by
  induction calls generalizing a with
  | nil => exact (List.append_nil _).symm
  | cons call calls ih =>
    have hloads : loads (call :: calls) = call.unit?.toList ++ loads calls := by
      cases call <;> rfl
    rw [hloads, ← List.append_assoc, ← units_step]
    exact ih _

/-- The full analysis reads **the rules and the units**, and replaces all else. -/
theorem analyze_congr {a b : Analysis} (hrules : a.rules = b.rules) (hunits : a.units = b.units) :
    a.analyze = b.analyze := by
  obtain ⟨rules, units, registry, procedures⟩ := a
  obtain ⟨rules', units', registry', procedures'⟩ := b
  obtain rfl : rules = rules' := hrules
  obtain rfl : units = units' := hunits
  rfl

/-- Inferring effects changes no name. -/
theorem procedureNames_inferEffects (a : Analysis) :
    a.inferEffects.procedureNames = a.procedureNames := by
  rw [procedureNames, procedureNames, inferEffects, List.map_map]
  rfl

/-- What effects a routine had before does not matter for its effects. -/
theorem inferEffects_inferEffects (a : Analysis) :
    a.inferEffects.inferEffects = a.inferEffects := by
  have hnames := a.procedureNames_inferEffects
  rw [inferEffects, hnames]
  show ({ a with procedures := _ } : Analysis) = _
  rw [inferEffects, List.map_map]
  rfl

/-- **Analysis does not depend on history.** After any calls, in any order and number, the full
analysis leaves what it leaves for a fresh batch with the same rules, into which the same units were
loaded; and inferring effects once more changes nothing. -/
theorem analyze_run (rules : List EffectRule) (calls : List Call) :
    (run { rules } calls).analyze = (loaded rules (loads calls)).analyze
      ∧ (run { rules } calls).inferEffects.inferEffects = (run { rules } calls).inferEffects := by
  refine ⟨analyze_congr ?_ ?_, inferEffects_inferEffects _⟩
  · rw [rules_run, loaded_eq]
  · rw [units_run, loaded_eq]
    rfl

end Analysis

/-! ## What the full analysis finds -/

/-- A routine and where it is **declared**. -/
structure Declaration where
  unit : SourceUnit
  owner : Option ClassDecl
  routine : Routine

/-- The declarations of some units, unit by unit. -/
def declarations (us : List SourceUnit) : List Declaration :=
  us.flatMap fun u => u.routines.map fun r => ⟨u, r.1, r.2⟩

namespace Analysis

/-- The routine for a declaration, with the effects that it has among the names of a batch. -/
def procedureFor (a : Analysis) (d : Declaration) : Procedure :=
  let p := Procedure.ofRoutine a.registry d.unit d.owner d.routine
  { p with effects := p.infer a.rules a.classNames a.procedureNames }

variable (rules : List EffectRule) (us : List SourceUnit)

theorem rules_analyze : (loaded rules us).analyze.rules = rules := by
  rw [loaded_eq]
  rfl

/-- After the analysis the registry is that of the units. -/
theorem registry_analyze : (loaded rules us).analyze.registry = .ofUnits us := by
  rw [loaded_eq]
  rfl

/-- One routine is collected for each declaration, **in their order**. -/
theorem procedures_collected (a : Analysis) :
    a.collectProcedures.procedures
      = (declarations a.units).map fun d => .ofRoutine a.registry d.unit d.owner d.routine := by
  rw [declarations, List.map_flatMap]
  refine List.flatMap_congr fun u _ => ?_
  rw [List.map_map]
  rfl

/-- The full analysis finds **one routine for each declaration**, in their order. -/
theorem procedures_analyze :
    (loaded rules us).analyze.procedures
      = (declarations us).map (loaded rules us).analyze.procedureFor := by
  rw [loaded_eq]
  -- Inferring effects is the last step, and the names that it reads are still there behind it.
  let c : Analysis := ({ rules, units := us } : Analysis).collectTypes.collectProcedures
  have hnames : c.inferEffects.procedureNames = c.procedureNames := procedureNames_inferEffects c
  show c.procedures.map (fun p =>
      { p with effects := p.infer c.rules c.classNames c.procedureNames })
    = (declarations us).map c.inferEffects.procedureFor
  rw [procedures_collected, List.map_map]
  refine List.map_congr_left fun d _ => ?_
  rw [procedureFor, hnames]
  rfl

/-- The names of the routines are those of the declarations, each once. -/
theorem procedureNames_analyze :
    (loaded rules us).analyze.procedureNames
      = OrderedSet.ofList ((declarations us).map fun d => d.routine.name) := by
  rw [procedureNames, procedures_analyze, List.map_map]
  rfl

/-- Batches whose **names compare** find effects that compare. -/
theorem alike_procedureFor {R : List Text → List Text → Prop} (hR : OrderedSet.Keeps R)
    {a b : Analysis} (hrules : b.rules = a.rules) (hclasses : R a.classNames b.classNames)
    (hknown : R a.procedureNames b.procedureNames) (d : Declaration) :
    (a.procedureFor d).effects.Alike R (b.procedureFor d).effects := by
  rw [procedureFor, procedureFor, hrules]
  refine Procedure.alike_infer hR hclasses hknown a.rules rfl rfl rfl ?_
  show Table.keys (.ofList _) = Table.keys (.ofList _)
  rw [Table.keys_ofList, Table.keys_ofList, List.map_map, List.map_map]
  rfl

end Analysis

end PascalAtlas
