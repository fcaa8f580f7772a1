import PascalAtlas.Proofs.Classified

/-!
# What the other units of a batch change

The units of a batch are analyzed together, so a unit may come out differently in other company.
This module says how differently, in two cases.

* **More units behind it** (`Analysis.analyze_extends`): every routine keeps what it reads and
  writes, and what it creates and calls can only be added to, at the end. A type that was a
  class stays that class.
* **The same units in another order** (`Analysis.analyze_reordered`): where all classes have names
  of their own, nothing changes but the order of things, and the documents of entities and of the
  backend have the same entries.

Both come from the same two facts. The registry and the names of the routines follow the order of
the units; and all that a routine takes from them is compared as they are
(`Analysis.alike_procedureFor`).

That class names have no dots is needed already in the first case. A class `B.C` of a unit `A`
has the same key as a class `C` of a unit `A.B`, so a later unit would take its place in the
registry under another name.
-/

namespace PascalAtlas

open List (Forall₂)
open Analysis (loaded)

theorem declarations_append (us more : List SourceUnit) :
    declarations (us ++ more) = declarations us ++ declarations more :=
  List.flatMap_append

/-- Another order of the units is another order of their declarations. -/
theorem declarations_perm {us vs : List SourceUnit} (h : us.Perm vs) :
    (declarations us).Perm (declarations vs) :=
  h.flatMap_right _

/-! ## More units -/

/-- What may become of a routine when there are **more classes and routines** than before: its types
stay where they were classes, and what it creates and calls goes on where it ended. -/
structure Procedure.Extends (registry : Registry) (p q : Procedure) : Prop where
  source : q = { p with parameters := q.parameters, effects := q.effects }
  parameters : Forall₂ (fun x y => y.1 = x.1 ∧ (registry.HasClass x.2 → y.2 = x.2))
    p.parameters.entries q.parameters.entries
  effects : p.effects.Alike (· <+: ·) q.effects

namespace Analysis

/-- An analysis that **goes on** where another one ends. -/
structure Extends (a b : Analysis) : Prop where
  keys : a.registry.keys <+: b.registry.keys
  procedures : ∃ kept added, b.procedures = kept ++ added
    ∧ Forall₂ (Procedure.Extends a.registry) a.procedures kept

variable (rules : List EffectRule)

/-- More units add names of classes **at the end**. -/
theorem classNames_extends {us more : List SourceUnit} (h : PlainClasses (us ++ more)) :
    (loaded rules us).analyze.classNames <+: (loaded rules (us ++ more)).analyze.classNames := by
  have hus : PlainClasses us := fun u hu => h u (List.mem_append_left _ hu)
  rw [classNames_ofUnits hus (registry_analyze rules us),
    classNames_ofUnits h (registry_analyze rules _), registry_analyze, registry_analyze]
  exact OrderedSet.ofList_extends ((Registry.keys_ofUnits_extends us more).map _)

/-- And names of routines, too. -/
theorem procedureNames_extends (us more : List SourceUnit) :
    (loaded rules us).analyze.procedureNames
      <+: (loaded rules (us ++ more)).analyze.procedureNames := by
  rw [procedureNames_analyze, procedureNames_analyze, declarations_append, List.map_append]
  exact OrderedSet.ofList_extends (List.prefix_append _ _)

/-- What becomes of the routine for one declaration. -/
theorem procedureFor_extends {us more : List SourceUnit} (h : PlainClasses (us ++ more))
    (d : Declaration) :
    Procedure.Extends (loaded rules us).analyze.registry ((loaded rules us).analyze.procedureFor d)
      ((loaded rules (us ++ more)).analyze.procedureFor d) where
  source := rfl
  parameters := by
    rw [procedureFor, procedureFor, registry_analyze, registry_analyze]
    refine Table.forall₂_ofList (fun hpair => hpair.1) (fun param => ⟨rfl, fun hclass => ?_⟩)
      d.routine.parameters
    exact Registry.resolve_of_extends (Registry.keys_ofUnits_extends us more)
      (fun _ => Registry.dot_mem_of_mem_keys) hclass
  effects := by
    have hrules : (loaded rules (us ++ more)).analyze.rules = (loaded rules us).analyze.rules := by
      rw [rules_analyze, rules_analyze]
    exact alike_procedureFor OrderedSet.keeps_isPrefix hrules (classNames_extends rules h)
      (procedureNames_extends rules us more) d

/-- **Units that come later do not disturb earlier results.** The keys of the registry and the
routines go on where they ended; each routine reads and writes what it did and belongs to the user
interface if it did; what it creates and calls goes on where it ended; and a parameter that was of a
class, or of an array of one, is so still. -/
theorem analyze_extends (us more : List SourceUnit) (h : PlainClasses (us ++ more)) :
    (loaded rules us).analyze.Extends (loaded rules (us ++ more)).analyze where
  keys := by
    rw [registry_analyze, registry_analyze]
    exact Registry.keys_ofUnits_extends us more
  procedures := by
    refine ⟨(declarations us).map (loaded rules (us ++ more)).analyze.procedureFor,
      (declarations more).map (loaded rules (us ++ more)).analyze.procedureFor, ?_, ?_⟩
    · rw [procedures_analyze, declarations_append, List.map_append]
    · rw [procedures_analyze, List.forall₂_map_left_iff, List.forall₂_map_right_iff,
        List.forall₂_same]
      exact fun d _ => procedureFor_extends rules h d

/-- A class with a routine that takes some of its objects. The routine makes objects of two classes
and calls another routine, which are not all there. -/
def sampleModel : SourceUnit where
  name := "Model".toList
  classes := [{ name := "TPerson".toList }]
  procedures := [{
    name := "Save".toList
    parameters := [⟨"list".toList, "array of TPerson".toList⟩]
    hasBody := true
    body := "list.Sort; TForm.Create; TPerson.Create; Log(list)".toList }]

/-- Another part of the unit, which declares the class **once more** and brings what was missing. -/
def sampleRest : SourceUnit where
  name := "Model".toList
  classes := [{ name := "TForm".toList }, { name := "TPerson".toList }]
  procedures := [{ name := "Log".toList }]

/-- The later unit replaces an entry of the registry, and adds to what the
routine creates and calls. -/
theorem analyze_extends_same_key :
    PlainClasses ([sampleModel] ++ [sampleRest])
      ∧ ((loaded [] [sampleModel]).analyze.procedures.map
          fun p => (p.effects.creates, p.effects.calls))
        = [(["TPerson".toList], [])]
      ∧ ((loaded [] ([sampleModel] ++ [sampleRest])).analyze.procedures.map fun p =>
          (p.effects.creates, p.effects.calls))
        = [(["TPerson".toList, "TForm".toList], ["Log".toList]), ([], [])]
      ∧ (loaded [] [sampleModel]).analyze.Extends
        (loaded [] ([sampleModel] ++ [sampleRest])).analyze :=
  ⟨by decide, by decide, by decide, analyze_extends [] [sampleModel] [sampleRest] (by decide)⟩

/-- A class with a **dot in its name** can lose its place: here the registry has one entry, first
for the one class and then for the other. -/
example :
    let before : SourceUnit :=
      { name := "A".toList
        classes := [{ name := "B.C".toList }]
        procedures := [{ name := "P".toList, hasBody := true, body := "B.C.Create".toList }] }
    let later : SourceUnit := { name := "A.B".toList, classes := [{ name := "C".toList }] }
    ((loaded [] [before]).analyze.procedures.map fun p => p.effects.creates) = [["B.C".toList]]
      ∧ ((loaded [] [before, later]).analyze.procedures.map fun p => p.effects.creates)
        = [["C".toList]] := by
  decide

end Analysis

/-! ## Another order -/

/-- What may become of a routine when things come in **another order**: the order of what
it creates and calls. -/
structure Procedure.Reordered (p q : Procedure) : Prop where
  source : q = { p with effects := q.effects }
  effects : p.effects.Alike List.Perm q.effects

section Reordered

variable (rules : List EffectRule) {us vs : List SourceUnit}

/-- Another order of the units is another order of the names of classes. -/
theorem Analysis.classNames_perm (hperm : us.Perm vs) (h : PlainClasses us) :
    (loaded rules us).analyze.classNames.Perm (loaded rules vs).analyze.classNames := by
  rw [classNames_ofUnits h (registry_analyze rules us), classNames_ofUnits (h.of_perm hperm)
    (registry_analyze rules vs), registry_analyze, registry_analyze]
  exact OrderedSet.ofList_perm ((keys_ofUnits_perm hperm).map _)

/-- And of the names of routines. -/
theorem Analysis.procedureNames_perm (hperm : us.Perm vs) :
    (loaded rules us).analyze.procedureNames.Perm (loaded rules vs).analyze.procedureNames := by
  rw [procedureNames_analyze, procedureNames_analyze]
  exact OrderedSet.ofList_perm ((declarations_perm hperm).map _)

/-- The types of a routine are resolved **in the same way**, if all classes differ. -/
theorem Procedure.ofRoutine_perm (hperm : us.Perm vs) (h : PlainClasses us)
    (hdistinct : (declaredClasses us).Nodup) (d : Declaration) :
    ofRoutine (.ofUnits vs) d.unit d.owner d.routine
      = ofRoutine (.ofUnits us) d.unit d.owner d.routine := by
  have hresolve : (Registry.ofUnits vs).resolve = (Registry.ofUnits us).resolve :=
    funext (resolve_ofUnits_perm hperm h hdistinct)
  rw [ofRoutine, ofRoutine, hresolve]

/-- So a routine differs only in the order of what it creates and calls. -/
theorem Analysis.procedureFor_reordered (hperm : us.Perm vs) (h : PlainClasses us)
    (hdistinct : (declaredClasses us).Nodup) (d : Declaration) :
    Procedure.Reordered ((loaded rules us).analyze.procedureFor d)
      ((loaded rules vs).analyze.procedureFor d) where
  source := by
    rw [procedureFor, procedureFor, registry_analyze, registry_analyze,
      Procedure.ofRoutine_perm hperm h hdistinct]
  effects := by
    have hrules : (loaded rules vs).analyze.rules = (loaded rules us).analyze.rules := by
      rw [rules_analyze, rules_analyze]
    exact alike_procedureFor OrderedSet.keeps_perm hrules (classNames_perm rules hperm h)
      (procedureNames_perm rules hperm) d

/-- **The order of the units does not matter**, if no class has a dot in its name and all have names
of their own. The routines are the same in another order: each has the same parameters of the same
types, reads and writes the same, and creates and calls the same in another order. The entities and
the procedures of the backend are the same in another order. -/
theorem Analysis.analyze_reordered (o : LoweringOptions) (hperm : us.Perm vs) (h : PlainClasses us)
    (hdistinct : (declaredClasses us).Nodup) :
    let a := (loaded rules us).analyze
    let b := (loaded rules vs).analyze
    (∃ ps, ps.Perm b.procedures ∧ Forall₂ Procedure.Reordered a.procedures ps)
      ∧ (o.documents a).entities.entities.Perm (o.documents b).entities.entities
      ∧ (o.documents a).backend.procedures.Perm (o.documents b).backend.procedures := by
  refine ⟨⟨(declarations us).map (loaded rules vs).analyze.procedureFor, ?_, ?_⟩, ?_, ?_⟩
  · rw [procedures_analyze]
    exact (declarations_perm hperm).map _
  · rw [procedures_analyze, List.forall₂_map_left_iff, List.forall₂_map_right_iff,
      List.forall₂_same]
    exact fun d _ => procedureFor_reordered rules hperm h hdistinct d
  · show ((loaded rules us).analyze.registry.entries.filterMap o.entity?).Perm
      ((loaded rules vs).analyze.registry.entries.filterMap o.entity?)
    rw [registry_analyze, registry_analyze]
    exact (entries_ofUnits_perm hperm h hdistinct).filterMap _
  · show (o.backend (loaded rules us).analyze).procedures.Perm
      (o.backend (loaded rules vs).analyze).procedures
    have hbackend : o.backendFor rules (.ofUnits vs) = o.backendFor rules (.ofUnits us) := by
      funext d
      rw [LoweringOptions.backendFor, LoweringOptions.backendFor,
        Procedure.ofRoutine_perm hperm h hdistinct]
    rw [LoweringOptions.backend_analyze, LoweringOptions.backend_analyze, hbackend]
    exact ((declarations_perm hperm).filter _).map _

/-- A unit with another class, which is known to others by a **part** of the name of the unit. -/
def Analysis.sampleForms : SourceUnit where
  name := "App.Forms".toList
  classes := [{ name := "TForm".toList }]
  procedures := [{
    name := "Log".toList
    parameters := [⟨"form".toList, "Forms.TForm".toList⟩]
    hasBody := true
    body := "form.Show; TPerson.Create; TForm.Create".toList }]

/-- What the routines create comes in another order, and all else stays. -/
theorem Analysis.analyze_reordered_two :
    let a := (loaded [.write "list".toList "Store".toList] [sampleModel, sampleForms]).analyze
    let b := (loaded [.write "list".toList "Store".toList] [sampleForms, sampleModel]).analyze
    [sampleModel, sampleForms].Perm [sampleForms, sampleModel]
      ∧ PlainClasses [sampleModel, sampleForms]
      ∧ (declaredClasses [sampleModel, sampleForms]).Nodup
      ∧ (a.procedures.map fun p => p.effects.creates)
        = [["TPerson".toList, "TForm".toList], ["TPerson".toList, "TForm".toList]]
      ∧ (b.procedures.map fun p => p.effects.creates)
        = [["TForm".toList, "TPerson".toList], ["TForm".toList, "TPerson".toList]]
      ∧ (∃ ps, ps.Perm b.procedures ∧ Forall₂ Procedure.Reordered a.procedures ps)
      ∧ (LoweringOptions.documents {} a).entities.entities.Perm
        (LoweringOptions.documents {} b).entities.entities
      ∧ (LoweringOptions.documents {} a).backend.procedures.Perm
        (LoweringOptions.documents {} b).backend.procedures :=
  ⟨.swap _ _ _, by decide, by decide, by decide, by decide,
    analyze_reordered [.write "list".toList "Store".toList] {} (.swap _ _ _) (by decide)
      (by decide)⟩

end Reordered

end PascalAtlas
