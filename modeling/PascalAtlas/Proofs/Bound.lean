import PascalAtlas.Lowering
import PascalAtlas.Proofs.ExactEffects

/-!
# Actions that are bound to a routine

An action calls the first routine that its handler calls and that makes no object. The handler knows
routines by their names only, so the name is looked up again, and among several routines of that
name the first one says which arguments there are. The lookup never fails: whatever is found to be
called in a body is the name of a routine of the batch (`Analysis.exists_named_of_mem_calls`).

Where there is nothing to call, a **placeholder** stands for the name, and whether an action is
bound is read off the name alone. The placeholder is a text like any other. A routine may have it
for its name, and an action that calls this routine then passes the arguments of the routine, but
does not count as bound (`LoweringOptions.placeholder_called`). With all other names an action is
bound exactly if there is something to call (`LoweringOptions.actions_bound`).
-/

namespace PascalAtlas

/-! ## Calls and routines -/

/-- Only **names of the batch** are found to be called. -/
theorem Procedure.mem_known_of_mem_calls {rules : List EffectRule} {classes known : List Text}
    {p : Procedure} {name : Text} (h : name ∈ (p.infer rules classes known).calls) :
    name ∈ known := by
  rw [infer] at h
  split at h
  next =>
    replace h : name ∈ OrderedSet.insertAll (Effects.applyRules rules p.body {}).calls
        (callsIn p.name known p.body) := h
    rw [Effects.applyRules_eq, Effects.foldl_add] at h
    exact (List.mem_filter.1 (OrderedSet.mem_ofList.1 h)).1
  next => cases h

namespace Analysis

variable {a : Analysis} {p q : Procedure} {name : Text}

/-- A call **makes an object**: by the name `Create` in any case, or by the name
of some constructor. -/
def MakesObject (a : Analysis) (name : Text) : Prop :=
  Text.lower name = Text.lower "Create".toList
    ∨ ∃ q ∈ a.procedures, q.name = name ∧ q.kind = .constructor

/-- The test for a call that makes an object says what it should. -/
theorem isConstructorCall_iff : a.isConstructorCall name = true ↔ a.MakesObject name := by
  rw [isConstructorCall, Bool.or_eq_true, List.any_eq_true]
  refine or_congr beq_iff_eq (exists_congr fun q => and_congr_right fun _ => ?_)
  rw [Bool.and_eq_true, decide_eq_true_iff, decide_eq_true_iff]

/-- The **first call** of a routine that makes no object. -/
def FirstCall (a : Analysis) (p : Procedure) (name : Text) : Prop :=
  ¬ a.MakesObject name ∧
    ∃ before after, p.effects.calls = before ++ name :: after
    ∧ ∀ other ∈ before, a.MakesObject other

/-- The first call is what the search among the calls finds. -/
theorem firstCall_iff :
    a.FirstCall p name ↔ p.effects.calls.find? (fun n => !a.isConstructorCall n) = some name := by
  rw [List.find?_eq_some_iff_append, FirstCall, Bool.not_eq_true', ← Bool.not_eq_true,
    isConstructorCall_iff]
  simp only [Bool.not_not, isConstructorCall_iff]

/-- There is a first call if **some** call makes no object. -/
theorem exists_firstCall (h : ∃ name ∈ p.effects.calls, ¬ a.MakesObject name) :
    ∃ name, a.FirstCall p name := by
  obtain ⟨name, hname, hmakes⟩ := h
  have hsome : (p.effects.calls.find? fun n => !a.isConstructorCall n).isSome = true := by
    refine List.find?_isSome.2 ⟨name, hname, ?_⟩
    rwa [Bool.not_eq_true', ← Bool.not_eq_true, isConstructorCall_iff]
  obtain ⟨first, hfirst⟩ := Option.isSome_iff_exists.1 hsome
  exact ⟨first, firstCall_iff.2 hfirst⟩

theorem FirstCall.mem_calls (h : a.FirstCall p name) : name ∈ p.effects.calls :=
  List.mem_of_find?_eq_some (firstCall_iff.1 h)

/-- The **first routine** with a name. -/
def FirstNamed (a : Analysis) (name : Text) (q : Procedure) : Prop :=
  q.name = name ∧ ∃ before after, a.procedures = before ++ q :: after
    ∧ ∀ other ∈ before, other.name ≠ name

/-- The first routine of a name is what the lookup finds. -/
theorem firstNamed_iff : a.FirstNamed name q ↔ a.procedure? name = some q := by
  rw [procedure?, List.find?_eq_some_iff_append, FirstNamed, decide_eq_true_iff]
  simp only [Bool.not_eq_true', decide_eq_false_iff_not, ne_eq]

/-- **What is called is there**: every call of a routine is the name of a routine of the batch. -/
theorem exists_named_of_mem_calls (a : Analysis) (hp : p ∈ a.analyze.procedures)
    (hname : name ∈ p.effects.calls) :
    ∃ q ∈ a.analyze.procedures, q.name = name := by
  obtain ⟨q, -, rfl⟩ := List.mem_map.1 hp
  have hknown := Procedure.mem_known_of_mem_calls hname
  rw [procedureNames, OrderedSet.mem_ofList] at hknown
  obtain ⟨r, hr, rfl⟩ := List.mem_map.1 hknown
  exact ⟨_, List.mem_map_of_mem hr, rfl⟩

/-- There is a first routine of each name in the batch. -/
theorem exists_firstNamed (h : ∃ q ∈ a.procedures, q.name = name) : ∃ q, a.FirstNamed name q := by
  obtain ⟨q, hq, hname⟩ := h
  have hsome : (a.procedure? name).isSome = true :=
    List.find?_isSome.2 ⟨q, hq, decide_eq_true hname⟩
  obtain ⟨first, hfirst⟩ := Option.isSome_iff_exists.1 hsome
  exact ⟨first, firstNamed_iff.2 hfirst⟩

end Analysis

/-- Whether a call is bound is read off its **name**. -/
theorem BackendCall.isBound_iff {call : BackendCall} :
    call.isBound = true ↔ call.procedure ≠ [] ∧ call.procedure ≠ unknown := by
  rw [isBound, Bool.and_eq_true, Bool.not_eq_true', List.isEmpty_eq_false_iff, bne_iff_ne]

namespace LoweringOptions

open Analysis

variable {a : Analysis} {p callee : Procedure} {name : Text}

/-! ## The call of an action -/

/-- With a first call, the action passes **the arguments of the routine that is called**. -/
theorem backendCall_of_firstCall (hcall : a.FirstCall p name) (hcallee : a.FirstNamed name callee)
    (entity : Text) :
    backendCall a p entity = ⟨name, callee.parameters.values.map (argument entity)⟩ := by
  rw [backendCall, firstCall_iff.1 hcall, Option.bind_some, firstNamed_iff.1 hcallee]
  exact congrArg (BackendCall.mk · _) hcallee.1

/-- Without one, the placeholder is called with what the form gives. -/
theorem backendCall_of_none (h : ∀ name ∈ p.effects.calls, a.MakesObject name) (entity : Text) :
    backendCall a p entity = ⟨unknown, [⟨entity, formSource⟩]⟩ := by
  have hnone : p.effects.calls.find? (fun n => !a.isConstructorCall n) = none := by
    rw [List.find?_eq_none]
    intro name hname
    rw [isConstructorCall_iff.2 (h name hname)]
    exact Bool.false_ne_true
  rw [backendCall, hnone]
  rfl

/-- The kind of an action says whether it is bound. -/
theorem kind_uiAction (o : LoweringOptions) (a : Analysis) (p : Procedure) :
    (o.uiAction a p).kind = if (o.uiAction a p).backendCall.isBound then "submit".toList
      else "event".toList := by
  rw [uiAction]
  simp only
  split <;> rfl

/-- **Actions are bound exactly where there is something to call.** If a handler of the user
interface has a call that makes no object, its action names the first such call and has one argument
for each parameter of the first routine of that name, and it is bound unless the name is empty or
the placeholder. If it has none, the placeholder stands for the name, with the form's entity for its
only argument, and the action is not bound. -/
theorem actions_bound (o : LoweringOptions) (a : Analysis) {p : Procedure}
    (hp : p ∈ a.analyze.procedures) (hui : p.effects.isUi = true) :
    let action := o.uiAction a.analyze p
    action ∈ (o.documents a.analyze).ui.actions
      ∧ ((∃ name ∈ p.effects.calls, ¬ a.analyze.MakesObject name) →
        ∃ name callee, a.analyze.FirstCall p name ∧ a.analyze.FirstNamed name callee
          ∧ action.backendCall.procedure = name
          ∧ action.backendCall.arguments = callee.parameters.values.map (fun type =>
              ⟨type.simpleTypeName, if type.simpleTypeName = action.form.entity then "form".toList
                else "Unknown".toList⟩)
          ∧ (name ≠ [] ∧ name ≠ "Unknown".toList →
            action.backendCall.isBound = true ∧ action.kind = "submit".toList)
          ∧ (name = [] ∨ name = "Unknown".toList →
            action.backendCall.isBound = false ∧ action.kind = "event".toList))
      ∧ ((∀ name ∈ p.effects.calls, a.analyze.MakesObject name) →
        action.backendCall = ⟨"Unknown".toList, [⟨action.form.entity, "form".toList⟩]⟩
          ∧ action.backendCall.isBound = false ∧ action.kind = "event".toList) := by
  have hsubmit (hbound : (o.uiAction a.analyze p).backendCall.isBound = true) :
      (o.uiAction a.analyze p).kind = "submit".toList := by rw [kind_uiAction, hbound, if_pos rfl]
  have hevent (hbound : (o.uiAction a.analyze p).backendCall.isBound = false) :
      (o.uiAction a.analyze p).kind = "event".toList := by
    rw [kind_uiAction, hbound, if_neg Bool.false_ne_true]
  refine ⟨List.mem_map_of_mem (List.mem_filter.2 ⟨hp, hui⟩), fun hcalls => ?_, fun hcalls => ?_⟩
  · -- The name is looked up again, and is there, because only names of the batch are
    -- found to be called.
    obtain ⟨name, hcall⟩ := exists_firstCall hcalls
    obtain ⟨callee, hcallee⟩ := exists_firstNamed (a.exists_named_of_mem_calls hp hcall.mem_calls)
    have hbackend : (o.uiAction a.analyze p).backendCall = ⟨name, _⟩ :=
      backendCall_of_firstCall hcall hcallee _
    have hbound : (o.uiAction a.analyze p).backendCall.isBound = true
        ↔ name ≠ [] ∧ name ≠ unknown := by
      rw [BackendCall.isBound_iff, hbackend]
    refine ⟨name, callee, hcall, hcallee, by rw [hbackend], by rw [hbackend]; rfl, fun hname => ?_,
      fun hname => ?_⟩
    · have htrue := hbound.2 hname
      exact ⟨htrue, hsubmit htrue⟩
    · have hfalse := Bool.eq_false_iff.2 (mt hbound.1 fun h => hname.elim h.1 h.2)
      exact ⟨hfalse, hevent hfalse⟩
  · have hbackend : (o.uiAction a.analyze p).backendCall = ⟨unknown, _⟩ :=
      backendCall_of_none hcalls _
    have hfalse : (o.uiAction a.analyze p).backendCall.isBound = false := by
      rw [hbackend]
      rfl
    exact ⟨hbackend, hfalse, hevent hfalse⟩

/-- A handler that runs a constructor before it calls anything else. -/
def addingHandler : Routine where
  name := "AddClick".toList
  hasBody := true
  body := "p := TPerson.Create; Init(p); Add(p, Caption); ShowMessage(Caption)".toList

/-- The unit of the handler, and the routine that it calls. -/
def addingScreen : SourceUnit where
  name := "Screen".toList
  procedures :=
    [ { name := "Add".toList
        parameters := [⟨"p".toList, "TPerson".toList⟩, ⟨"note".toList, "string".toList⟩] },
      addingHandler]

/-- The class of what is added comes first. -/
def addingBatch : Analysis where
  units := [
    { name := "Model".toList
      classes := [
        { name := "TPerson".toList
          methods := [{ name := "Init".toList, kind := .constructor }] }] },
    addingScreen]

/-- The constructor is passed over, and one of the two arguments comes from the form. -/
theorem actions_bound_adding :
    let a := addingBatch.analyze
    let p := a.procedureFor ⟨addingScreen, none, addingHandler⟩
    let action := uiAction {} a p
    p ∈ a.procedures ∧ p.effects.isUi = true ∧ p.effects.calls = ["Init".toList, "Add".toList]
      ∧ action.backendCall = ⟨"Add".toList,
        [⟨"TPerson".toList, "form".toList⟩, ⟨"string".toList, "Unknown".toList⟩]⟩
      ∧ action ∈ (documents {} a).ui.actions
      ∧ ∃ name callee, a.FirstCall p name ∧ a.FirstNamed name callee
        ∧ action.backendCall.procedure = name
        ∧ action.backendCall.arguments = callee.parameters.values.map (fun type =>
            ⟨type.simpleTypeName, if type.simpleTypeName = action.form.entity then "form".toList
              else "Unknown".toList⟩)
        ∧ (name ≠ [] ∧ name ≠ "Unknown".toList →
            action.backendCall.isBound = true ∧ action.kind = "submit".toList) := by
  have hp : addingBatch.analyze.procedureFor ⟨addingScreen, none, addingHandler⟩
      ∈ addingBatch.analyze.procedures := by
    decide +kernel
  have hui : (addingBatch.analyze.procedureFor ⟨addingScreen, none, addingHandler⟩).effects.isUi
      = true := by
    decide +kernel
  have hcalls : (addingBatch.analyze.procedureFor ⟨addingScreen, none, addingHandler⟩).effects.calls
      = ["Init".toList, "Add".toList] := by
    decide +kernel
  have hadd : ¬ addingBatch.analyze.MakesObject "Add".toList := by
    rw [← isConstructorCall_iff]
    decide +kernel
  obtain ⟨hmem, hbound, -⟩ := actions_bound {} addingBatch hp hui
  obtain ⟨name, callee, hcall, hcallee, hprocedure, harguments, hsubmit, -⟩ :=
    hbound ⟨"Add".toList, by simp [hcalls], hadd⟩
  exact ⟨hp, hui, hcalls, by decide +kernel, hmem, name, callee, hcall, hcallee, hprocedure,
    harguments, hsubmit⟩

/-- A handler that calls a routine with the name of the placeholder. -/
def askingHandler : Routine where
  name := "SaveClick".toList
  hasBody := true
  body := "Unknown(1); ShowMessage('ok');".toList

/-- The unit of the handler and of the routine. -/
def askingScreen : SourceUnit where
  name := "Shop".toList
  procedures :=
    [ { name := "Unknown".toList
        parameters := [⟨"Amount".toList, "Integer".toList⟩]
        hasBody := true },
      askingHandler]

/-- A batch of that unit alone. -/
def askingBatch : Analysis where
  units := [askingScreen]

/-- A routine that is called **by the name of the placeholder** gives the action its arguments, but
the action is not bound. -/
theorem placeholder_called :
    let a := askingBatch.analyze
    let p := a.procedureFor ⟨askingScreen, none, askingHandler⟩
    let action := uiAction {} a p
    p ∈ a.procedures ∧ p.effects.isUi = true ∧ a.FirstCall p "Unknown".toList
      ∧ action.backendCall = ⟨"Unknown".toList, [⟨"Integer".toList, "Unknown".toList⟩]⟩
      ∧ action.backendCall.isBound = false ∧ action.kind = "event".toList := by
  have hcall : askingBatch.analyze.FirstCall
      (askingBatch.analyze.procedureFor ⟨askingScreen, none, askingHandler⟩) "Unknown".toList := by
    rw [firstCall_iff]
    decide +kernel
  exact ⟨by decide +kernel, by decide +kernel, hcall, by decide +kernel, by decide +kernel,
    by decide +kernel⟩

end LoweringOptions

end PascalAtlas
